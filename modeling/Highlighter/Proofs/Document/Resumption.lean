import Mathlib.Data.List.Nodup
import Highlighter.Proofs.Document.Settled
import Highlighter.Proofs.Labels.Handover
import Highlighter.Proofs.Labels.Outermost
import Highlighter.Proofs.Labels.Shape
import Highlighter.Proofs.Scheme.Construction

/-!
Regions of the outermost scheme that run over several lines. A line goes on with all of them that
the line before it offers: of one precedence entry only one is left open, so that none takes the
place of another one, and names tell the entries apart.
-/

namespace Highlighter

namespace Label

/-! ### Regions by their keys -/

namespace Key

variable {a b c : Key}

theorem lt_iff : a.lt b = true ↔ a.scheme < b.scheme ∨ a.scheme = b.scheme ∧ a.name < b.name := by
  simp [lt]

theorem lt_trans (hab : a.lt b = true) (hbc : b.lt c = true) : a.lt c = true := by
  rw [lt_iff] at *
  obtain hab | ⟨hab, hab'⟩ := hab
  · obtain hbc | ⟨hbc, -⟩ := hbc
    · exact .inl (String.lt_trans hab hbc)
    · exact .inl (hbc ▸ hab)
  · rw [hab]
    exact hbc.imp_right fun ⟨hbc, hbc'⟩ ↦ ⟨hbc, String.lt_trans hab' hbc'⟩

theorem ne_of_lt (h : a.lt b = true) : a ≠ b := by
  rintro rfl
  rw [lt_iff] at h
  obtain h | ⟨-, h⟩ := h
  · exact String.lt_irrefl _ h
  · exact String.lt_irrefl _ h

theorem lt_of_not_lt (h : ¬a.lt b = true) (hne : a ≠ b) : b.lt a = true := by
  rw [lt_iff, not_or, not_and, String.not_lt, String.not_lt] at h
  rw [lt_iff]
  by_cases hs : a.scheme = b.scheme
  · refine .inr ⟨hs.symm, Std.lt_of_le_of_ne (h.2 hs) fun hn ↦ hne ?_⟩
    cases a
    cases b
    cases hs
    cases hn
    rfl
  · exact .inl (Std.lt_of_le_of_ne h.1 (Ne.symm hs))

end Key

end Label

namespace Continuations

variable {cs : Continuations} {l : Label}

theorem pairwise_add (replace : Bool) (l : Label)
    (h : cs.Pairwise fun a b ↦ a.key.lt b.key = true) :
    (add replace l cs).Pairwise fun a b ↦ a.key.lt b.key = true := by
  induction cs with
  | nil => exact List.pairwise_singleton _ _
  | cons m cs ih =>
    obtain ⟨hm, hcs⟩ := List.pairwise_cons.1 h
    rw [add]
    split
    · next hlt =>
      refine List.pairwise_cons.2 ⟨fun c hc ↦ ?_, h⟩
      obtain rfl | hc := List.mem_cons.1 hc
      · exact hlt
      · exact Label.Key.lt_trans hlt (hm c hc)
    · next hnot =>
      split
      · next heq =>
        refine List.pairwise_cons.2 ⟨fun c hc ↦ ?_, hcs⟩
        split
        · exact heq ▸ hm c hc
        · exact hm c hc
      · next hne =>
        refine List.pairwise_cons.2 ⟨fun c hc ↦ ?_, ih hcs⟩
        obtain heq | ⟨c', hc', heq⟩ := (exists_key_add c.key).1 ⟨c, hc, rfl⟩
        · exact heq ▸ Label.Key.lt_of_not_lt hnot hne
        · exact heq ▸ hm c' hc'

end Continuations

namespace Label

/-- Whether a label of the outermost scheme goes on from the line before. -/
def isResumed (l : Label) : Bool := l.level == 0 && l.kind == .continued

theorem nodup_keys_offered (labels : List Label) : ((offered labels).map key).Nodup := by
  have hpairwise : (offered labels).Pairwise fun a b ↦ a.key.lt b.key = true :=
    List.foldlRecOn (motive := fun cs : Continuations ↦ cs.Pairwise fun a b ↦ a.key.lt b.key = true)
      _ _ .nil fun _ h l _ ↦ Continuations.pairwise_add false l.continuation h
  exact List.pairwise_map.2 (hpairwise.imp Key.ne_of_lt)

end Label

namespace Scheme

open Label

variable {s : Scheme} {line : Text} {inherited : Continuations} {maxNesting offset level order : ℕ}
variable {entry : Precedence} {r : Rule} {l : Label} {t : Text}

/-! ### Precedence entries and their regions -/

theorem name_mem_of_mem_delimitedRules (h : (order, r) ∈ s.delimitedRules entry) :
    r.name ∈ entry.names := by
  rw [delimitedRules, Sorting.mem_sort] at h
  obtain ⟨name, hname, hn⟩ := List.mem_filterMap.1 h
  simp only [Option.bind_eq_bind, Option.bind_eq_some_iff] at hn
  obtain ⟨order', horder, r', hr, hn⟩ := hn
  split at hn
  · cases hn
    obtain ⟨hlt, heq, -⟩ := List.findIdx?_eq_some_iff_getElem.1 horder
    obtain ⟨-, rfl⟩ := List.getElem?_eq_some_iff.1 hr
    rwa [beq_iff_eq.1 heq]
  · cases hn

theorem exists_rule_of_mem_pairedRegions (h : l ∈ s.pairedRegions offset t inherited entry) :
    ∃ order r, (order, r) ∈ s.delimitedRules entry ∧ r.name = l.name := by
  have hscan := s.leftmostScan_pairedRegions offset t inherited entry
  by_cases hk : l.kind = .continued
  · obtain ⟨-, order, r, source, hsource, hl⟩ := hscan.resumed l h hk
    obtain ⟨hr, -, hkey⟩ := of_resumed? hsource
    exact ⟨order, r, hr, (congrArg Key.name (hl.key.trans hkey)).symm⟩
  · obtain ⟨order, r, hr, start, hstart, hl, -⟩ := hscan.opened l h hk
    obtain ⟨_, _, rfl⟩ := hl.exists_eq
    obtain ⟨m, -, rfl⟩ := Rule.eq_labelAt_of_mem_openings hstart
    exact ⟨order, r, hr, rfl⟩

theorem name_mem_of_mem_pairedRegions (h : l ∈ s.pairedRegions offset t inherited entry) :
    l.name ∈ entry.names := by
  obtain ⟨order, r, hr, hname⟩ := exists_rule_of_mem_pairedRegions h
  exact hname ▸ name_mem_of_mem_delimitedRules hr

theorem exists_entry_of_mem_regions (h : l ∈ s.regions offset .lineEnd t inherited level)
    (hr : l.isRegion = true) : ∃ entry ∈ s.precedence,
      ∃ region ∈ s.pairedRegions offset t inherited entry, l = { region with level } := by
  obtain ⟨region, hregion, rfl⟩ := List.mem_map.1 h
  obtain ⟨entry, hentry, hregion⟩ := List.mem_flatMap.1 hregion
  obtain hword | hregion := List.mem_append.1 hregion
  · have hkind : region.kind = .single := kind_of_mem_entryWords hword
    have hr' : region.isRegion = true := hr
    rw [isRegion, hkind] at hr'
    cases hr'
  · exact ⟨entry, hentry, region, hregion, rfl⟩

/-- The last region of an entry is the only one that is left open. -/
theorem eq_of_mem_pairedRegions {a b : Label} (ha : a ∈ s.pairedRegions offset t inherited entry)
    (hb : b ∈ s.pairedRegions offset t inherited entry) (hao : a.stop = .lineEnd)
    (hbo : b.stop = .lineEnd) : a = b := by
  have hscan := s.leftmostScan_pairedRegions offset t inherited entry
  obtain ⟨i, hi⟩ := List.mem_iff_getElem?.1 ha
  obtain ⟨j, hj⟩ := List.mem_iff_getElem?.1 hb
  have hlast := (hscan.leftOpen i a hi hao).trans (hscan.leftOpen j b hj hbo).symm
  obtain rfl := Nat.succ.inj hlast
  exact Option.some.inj (hi.symm.trans hj)

theorem WellNamed.pairwise_names (h : s.WellNamed) :
    s.precedence.Pairwise fun p q ↦ ∀ name ∈ p.names, name ∉ q.names := by
  have hnodup : s.rankedNames.Nodup := h.perm_ranked.nodup_iff.2 h.nodup_labels
  exact (List.nodup_flatMap.1 hnodup).2.imp fun hdisjoint _ hp hq ↦ hdisjoint hp hq

theorem WellNamed.entry_eq (h : s.WellNamed) {p q : Precedence} {name : String}
    (hp : p ∈ s.precedence) (hq : q ∈ s.precedence) (hnp : name ∈ p.names) (hnq : name ∈ q.names) :
    p = q := by
  refine Classical.byContradiction fun hne ↦ ?_
  obtain hpq | hqp := Sorting.rel_or_rel_of_mem h.pairwise_names hp hq hne
  · exact hpq name hnp hnq
  · exact hqp name hnq hnp

/-! ### What a line offers -/

/-- Whether no scheme that is embedded in another one, however deep, has its name. -/
def HasOwnName (s : Scheme) : Prop := ∀ k, ∀ inner ∈ s.onLevel (k + 1), inner.name ≠ s.name

theorem hasOwnName_iff : s.HasOwnName ↔
    ∀ k < s.height, ∀ inner ∈ s.onLevel (k + 1), inner.name ≠ s.name := by
  refine ⟨fun h k _ ↦ h k, fun h k inner hinner ↦ h k ?_ inner hinner⟩
  have hle := add_height_le_of_mem_onLevel hinner
  omega

instance : DecidablePred HasOwnName := fun s ↦ decidable_of_iff _ (hasOwnName_iff (s := s)).symm

theorem HasOwnName.level_eq_zero (h : s.HasOwnName) (hl : l ∈ s.labelLine line inherited maxNesting)
    (hs : l.scheme = s.name) : l.level = 0 := by
  rw [← s.labels_trace] at hl
  obtain ⟨-, hlevel, -, -⟩ | ⟨-, -, -, -, -, inner, hinner, hname, -⟩ :=
    s.isFoundBy_trace line inherited maxNesting hl
  · exact hlevel
  · cases hk : l.level with
    | zero => rfl
    | succ k =>
      rw [hk] at hinner
      exact absurd (hname.trans hs) (h k inner hinner)

/-- Whether a line can go on with all continuations that are of a scheme: each is of a region, and
no two are of one precedence entry. -/
structure CanResume (s : Scheme) (cs : Continuations) : Prop where
  delimited : ∀ c ∈ cs, c.scheme = s.name →
    ∃ entry ∈ s.precedence, ∃ order r, (order, r) ∈ s.delimitedRules entry ∧ r.name = c.name
  onePerEntry : ∀ c ∈ cs, ∀ c' ∈ cs, c.scheme = s.name → c'.scheme = s.name →
    ∀ entry ∈ s.precedence, c.name ∈ entry.names → c'.name ∈ entry.names → c.name = c'.name
  nodup_keys : (cs.map key).Nodup

/-- A continuation of the scheme is of a region that some entry leaves open. -/
theorem HasOwnName.exists_openRegion (h : s.HasOwnName) {c : Label}
    (hc : c ∈ offered (s.labelLine line inherited maxNesting)) (hs : c.scheme = s.name) :
    ∃ entry ∈ s.precedence, ∃ region ∈ s.pairedRegions 0 line inherited entry,
      region.stop = .lineEnd ∧ region.name = c.name := by
  obtain ⟨l, hl, ho, hkey⟩ := (exists_key_offered _ c.key).1 ⟨c, hc, rfl⟩
  have hlevel : l.level = 0 := h.level_eq_zero hl ((scheme_eq_of_key hkey).trans hs)
  obtain ⟨source, hsource, hcut⟩ := exists_region_of_level_eq_zero hl hlevel
  have hopen := isOpenRegion_of_isOfferedBy ho
  have hstop : source.stop = .lineEnd := hcut.stop_eq_lineEnd (isOpenRegion_iff.1 hopen).2
  have hisRegion : source.isRegion = true := by
    rw [isOpenRegion, Bool.and_eq_true, hcut.apply_eq Label.isRegion] at hopen
    exact hopen.1
  have hname : source.name = c.name :=
    (hcut.apply_eq Label.name).symm.trans (congrArg Key.name hkey)
  obtain ⟨entry, hentry, region, hregion, rfl⟩ := exists_entry_of_mem_regions hsource hisRegion
  exact ⟨entry, hentry, region, hregion, hstop, hname⟩

theorem canResume_offered (hs : s.WellNamed) (hname : s.HasOwnName) :
    s.CanResume (offered (s.labelLine line inherited maxNesting)) := by
  refine ⟨fun c hc hscheme ↦ ?_, fun c hc c' hc' hscheme hscheme' entry hentry hn hn' ↦ ?_,
    nodup_keys_offered _⟩
  · obtain ⟨entry, hentry, region, hregion, -, hc⟩ := hname.exists_openRegion hc hscheme
    obtain ⟨order, r, hr, hrname⟩ := exists_rule_of_mem_pairedRegions hregion
    exact ⟨entry, hentry, order, r, hr, hrname.trans hc⟩
  · obtain ⟨p, hp, region, hregion, hstop, hc⟩ := hname.exists_openRegion hc hscheme
    obtain ⟨q, hq, region', hregion', hstop', hc'⟩ := hname.exists_openRegion hc' hscheme'
    obtain rfl := hs.entry_eq hentry hp hn (hc ▸ name_mem_of_mem_pairedRegions hregion)
    obtain rfl := hs.entry_eq hentry hq hn' (hc' ▸ name_mem_of_mem_pairedRegions hregion')
    rw [← hc, ← hc', eq_of_mem_pairedRegions hregion hregion' hstop hstop']

/-! ### What a line goes on with -/

/-- The key of the region with which a precedence entry goes on. -/
def resumedKey? (s : Scheme) (inherited : Continuations) (entry : Precedence) : Option Key :=
  (s.resumed? (s.delimitedRules entry) inherited).map fun m ↦ m.2.2.key

theorem map_key_continued_pairedRegions (s : Scheme) (t : Text) (inherited : Continuations)
    (entry : Precedence) :
    ((s.pairedRegions 0 t inherited entry).filter (·.kind == .continued)).map key =
      (s.resumedKey? inherited entry).toList := by
  have hopenings (cursor : ℕ) : (pairFrom cursor (s.sortedOpenings 0 t entry)).filter
      (·.kind == .continued) = [] := by
    refine List.filter_eq_nil_iff.2 fun l hl hk ↦ ?_
    exact (s.scans_sortedOpenings 0 t entry cursor).kind_ne (s.found_openings 0 t entry) l hl
      (beq_iff_eq.1 hk)
  rw [pairedRegions, if_pos rfl, resumedKey?]
  cases hresumed : s.resumed? (s.delimitedRules entry) inherited with
  | none =>
    dsimp only
    rw [hopenings]
    rfl
  | some m =>
    obtain ⟨order, r, l⟩ := m
    have hregion {region : Label} {next : Option ℕ} (rest : List Label)
        (hc : (l.resume 0 r.color order).close 0 (r.closings s.name order 0 t) = (region, next)) :
        ((region :: rest).filter (·.kind == .continued)).map key =
          l.key :: (rest.filter (·.kind == .continued)).map key := by
      have hclosed := closedFrom_close (r.inOrder_closings s.name order 0 t) hc
      rw [List.filter_cons, hclosed.kind]
      exact congrArg (· :: _) hclosed.key
    dsimp only
    split
    · next region next hc =>
      rw [hregion _ hc, hopenings]
      rfl
    · next region hc => exact hregion [] hc

theorem map_key_continued_regions (s : Scheme) (t : Text) (inherited : Continuations)
    (level : ℕ) :
    ((s.regions 0 .lineEnd t inherited level).filter (·.kind == .continued)).map key =
      s.precedence.filterMap (s.resumedKey? inherited) := by
  have hwords (entry : Precedence) :
      (s.entryWords 0 t entry).filter (·.kind == .continued) = [] := by
    refine List.filter_eq_nil_iff.2 fun l hl ↦ ?_
    rw [kind_of_mem_entryWords hl]
    exact Bool.false_ne_true
  have hregions : ((s.regions 0 .lineEnd t inherited level).filter (·.kind == .continued)).map key =
      ((s.precedence.flatMap fun entry ↦ s.entryWords 0 t entry ++
        s.pairedRegions 0 t inherited entry).filter (·.kind == .continued)).map key := by
    rw [regions, List.filter_map, List.map_map]
    rfl
  rw [hregions, List.filter_flatMap, List.map_flatMap, List.filterMap_eq_flatMap_toList]
  refine congrArg (List.flatMap · s.precedence) (funext fun entry ↦ ?_)
  rw [List.filter_append, hwords, List.nil_append, map_key_continued_pairedRegions]

theorem perm_map_key_isResumed (s : Scheme) (line : Text) (inherited : Continuations)
    (maxNesting : ℕ) :
    (((s.labelLine line inherited maxNesting).filter isResumed).map key).Perm
      (s.precedence.filterMap (s.resumedKey? inherited)) := by
  rw [← map_key_continued_regions s line inherited 0]
  have hkeys (labels : List Label) : ((labels.filter (·.kind == .continued)).map key) =
      ((labels.map outline).filter (·.kind == .continued)).map key := by
    rw [filter_map_outline labels (·.kind == .continued), List.map_map]
    rfl
  have hresumed (labels : List Label) : labels.filter isResumed =
      (labels.filter (·.level == 0)).filter (·.kind == .continued) := by
    rw [List.filter_filter]
    exact List.filter_congr fun l _ ↦ Bool.and_comm _ _
  rw [hresumed, hkeys, hkeys (s.regions 0 .lineEnd line inherited 0)]
  exact ((s.perm_map_outline_labelLine line inherited maxNesting).filter _).map key

theorem WellNamed.nodup_resumedKeys (h : s.WellNamed) (inherited : Continuations) :
    (s.precedence.filterMap (s.resumedKey? inherited)).Nodup := by
  have hname {entry : Precedence} {k : Key} (hk : s.resumedKey? inherited entry = some k) :
      k.name ∈ entry.names := by
    obtain ⟨⟨order, r, l⟩, hm, rfl⟩ := Option.map_eq_some_iff.1 hk
    obtain ⟨hr, -, hkey⟩ := of_resumed? hm
    rw [hkey]
    exact name_mem_of_mem_delimitedRules hr
  refine List.pairwise_filterMap.2 (h.pairwise_names.imp fun hdisjoint k hk k' hk' he ↦ ?_)
  exact hdisjoint k.name (hname hk) (he ▸ hname hk')

theorem CanResume.mem_resumedKeys_iff (h : s.CanResume inherited) {k : Key} :
    k ∈ s.precedence.filterMap (s.resumedKey? inherited) ↔
      k ∈ (inherited.filter (·.scheme == s.name)).map key := by
  rw [List.mem_filterMap, List.mem_map]
  constructor
  · rintro ⟨entry, -, hk⟩
    obtain ⟨⟨order, r, l⟩, hm, rfl⟩ := Option.map_eq_some_iff.1 hk
    obtain ⟨-, hl, hkey⟩ := of_resumed? hm
    exact ⟨l, List.mem_filter.2 ⟨hl, beq_iff_eq.2 (congrArg Key.scheme hkey)⟩, rfl⟩
  · rintro ⟨c, hc, rfl⟩
    obtain ⟨hc, hscheme⟩ := List.mem_filter.1 hc
    rw [beq_iff_eq] at hscheme
    obtain ⟨entry, hentry, order, r, hr, hrname⟩ := h.delimited c hc hscheme
    refine ⟨entry, hentry, ?_⟩
    obtain ⟨⟨order', r', l⟩, hm⟩ :
        ∃ m, s.resumed? (s.delimitedRules entry) inherited = some m := by
      rw [← Option.isSome_iff_exists, resumed?, List.findSome?_isSome_iff]
      refine ⟨(order, r), hr, ?_⟩
      rw [Option.isSome_map, Continuations.find?, List.find?_isSome]
      exact ⟨c, hc, beq_iff_eq.2 (by rw [key, hscheme, hrname])⟩
    obtain ⟨hr', hl, hkey⟩ := of_resumed? hm
    have hlscheme : l.scheme = s.name := congrArg Key.scheme hkey
    have hlname : l.name = r'.name := congrArg Key.name hkey
    -- no other one of the entry is there
    have hname : l.name = c.name := h.onePerEntry l hl c hc hlscheme hscheme entry hentry
      (hlname ▸ name_mem_of_mem_delimitedRules hr') (hrname ▸ name_mem_of_mem_delimitedRules hr)
    rw [resumedKey?, hm, Option.map_some, key, key, hlscheme, hname, hscheme]

theorem CanResume.perm_map_key (h : s.CanResume inherited) (hs : s.WellNamed) (line : Text)
    (maxNesting : ℕ) :
    (((s.labelLine line inherited maxNesting).filter isResumed).map key).Perm
      ((inherited.filter (·.scheme == s.name)).map key) := by
  refine (s.perm_map_key_isResumed line inherited maxNesting).trans ?_
  refine (List.perm_ext_iff_of_nodup (hs.nodup_resumedKeys inherited) ?_).2 fun k ↦
    h.mem_resumedKeys_iff
  exact h.nodup_keys.sublist (List.filter_sublist.map key)

/-- A region that goes on starts with the line, and is open unless its rule closes it. Nothing is
around it that could cut it shorter. -/
theorem start_eq_zero_and_stop_iff (hl : l ∈ s.labelLine line inherited maxNesting)
    (hresumed : l.isResumed = true) : l.start = 0 ∧ ∃ order, ∃ r : Rule, s.rules[order]? = some r ∧
      r.name = l.name ∧ (l.stop = .lineEnd ↔ r.closings s.name order 0 line = []) := by
  obtain ⟨h0, hk⟩ := Bool.and_eq_true_iff.1 hresumed
  rw [beq_iff_eq] at hk
  have hstart : l.start = 0 := ((s.ofLine_labelLine line inherited maxNesting).continued l hl hk).1
  obtain ⟨source, hsource, houtline⟩ := List.mem_map.1
    ((s.perm_map_outline_labelLine line inherited maxNesting).mem_iff.1
      (List.mem_map_of_mem (List.mem_filter.2 ⟨hl, h0⟩)))
  have hkind : source.kind = .continued := (eq_of_outline_eq Label.kind houtline).trans hk
  have hsstart : source.start = 0 := (eq_of_outline_eq Label.start houtline).trans hstart
  have hstop : l.stop = .lineEnd ↔ source.stop = .lineEnd :=
    ⟨stop_eq_lineEnd_of_outline_eq houtline.symm hstart,
      stop_eq_lineEnd_of_outline_eq houtline hsstart⟩
  have hlname : source.name = l.name := eq_of_outline_eq Label.name houtline
  have hisRegion : source.isRegion = true := by rw [isRegion, hkind]
  obtain ⟨entry, -, region, hregion, rfl⟩ := exists_entry_of_mem_regions hsource hisRegion
  obtain ⟨-, order, r, c, hc, hclosed⟩ :=
    (s.leftmostScan_pairedRegions 0 line inherited entry).resumed region hregion hkind
  obtain ⟨hr, -, hkey⟩ := of_resumed? hc
  refine ⟨hstart, order, r, getElem?_of_mem_delimitedRules hr, ?_, hstop.trans ?_⟩
  · have hregionName : region.name = r.name := congrArg Key.name (hclosed.key.trans hkey)
    exact hregionName.symm.trans hlname
  · cases hclosed with
    | column hmem => exact iff_of_false Stop.noConfusion (List.ne_nil_of_mem hmem)
    | lineEnd hnone =>
      refine iff_of_true rfl (List.eq_nil_iff_forall_not_mem.2 fun c hc ↦ ?_)
      exact absurd (hnone c hc) (Nat.not_lt_zero _)

end Scheme

namespace Document

variable {d : Document} {source : List Text} {draft : Scheme.Draft}

/-- In a settled document each line goes on with exactly the regions of the outermost scheme that
the line before offers, each of them once, and the first line with none. They start with the line,
and are open unless their rules close them. -/
theorem perm_map_key_resumed (h : d.IsSettledOn source) (hbuilt : draft.build = .ok d.scheme)
    (hname : d.scheme.HasOwnName) :
    (∀ l ∈ d.labels 0, l.kind ≠ .continued) ∧
    ∀ line, line + 1 < source.length →
      let continued := (d.labels (line + 1)).filter Label.isResumed
      let offered := (Label.offered (d.labels line)).filter (·.scheme == d.scheme.name)
      (continued.map Label.key).Perm (offered.map Label.key) ∧ (offered.map Label.key).Nodup ∧
      ∀ l ∈ continued, l.start = 0 ∧ ∃ order, ∃ r : Rule, d.scheme.rules[order]? = some r ∧
        r.name = l.name ∧ (l.stop = .lineEnd ↔
          r.closings d.scheme.name order 0 (source.getD (line + 1) []) = []) := by
  have hs := Scheme.Draft.wellNamed_of_build hbuilt
  have hr := h.reads
  refine ⟨fun l hl hk ↦ ?_, fun line hline ↦ ?_⟩
  · by_cases h0 : 0 < source.length
    · rw [hr.labels_eq h0] at hl
      obtain ⟨-, c, hc, -⟩ := (d.scheme.ofLine_labelLine _ _ _).continued l hl hk
      exact List.not_mem_nil hc
    · rw [hr.labels_eq_nil (Nat.not_lt.1 h0)] at hl
      cases hl
  · have hcan : d.scheme.CanResume (Label.offered (d.labels line)) := by
      rw [hr.labels_eq (Nat.lt_of_succ_lt hline)]
      exact Scheme.canResume_offered hs hname
    dsimp only
    rw [hr.labels_eq hline, hr.freshlyInheritedBy_succ (Nat.lt_of_succ_lt hline)]
    refine ⟨hcan.perm_map_key hs _ _, hcan.nodup_keys.sublist (List.filter_sublist.map Label.key),
      fun l hl ↦ ?_⟩
    obtain ⟨hl, hresumed⟩ := List.mem_filter.1 hl
    exact Scheme.start_eq_zero_and_stop_iff hl hresumed

/-- Pages with code in them, and remarks in both. -/
def pages : Scheme.Draft :=
  let remark := (Rule.delimited "REMARK" .plain "<".toList).withCloser ">".toList
  let code := (Rule.delimited "CODE" .plain "@".toList).withCloser ";".toList
  ((Scheme.Draft.new "page").labels [{ remark with multiLine := true },
    { code with multiLine := true }]).embed "CODE" Session.remarks

def pageLines : List Text := ["a<b".toList, "c>@d<".toList, "e;f".toList]

def labeledPage : Document := ((new pages.complete {} 3).runUntilIdle 0 pageLines).2

/-- A remark ends where code begins, in which another remark is open at the end of the line. -/
theorem perm_map_key_resumed_pages :
    labeledPage.IsSettledOn pageLines ∧ pages.build = .ok labeledPage.scheme ∧
      labeledPage.scheme.HasOwnName ∧
      ((labeledPage.labels 2).filter Label.isResumed).map Label.key = [⟨"page", "CODE"⟩] := by
  have hsettled : labeledPage.IsSettledOn pageLines :=
    ⟨⟨pages.complete, {}, 3, [.runUntilIdle 0 pageLines], rfl⟩, by decide +kernel,
      by decide +kernel⟩
  have hscheme : labeledPage.scheme = pages.complete := by
    rw [labeledPage, (sameRules_runUntilIdle (new pages.complete {} 3) 0 pageLines).1]
    rfl
  have hbuilt : pages.build = .ok labeledPage.scheme :=
    Scheme.Draft.build_eq_ok_iff.2 ⟨⟨by decide +kernel, by decide +kernel, by decide +kernel,
      by decide +kernel⟩, hscheme⟩
  have hname : labeledPage.scheme.HasOwnName := by
    rw [hscheme]
    decide +kernel
  have hperm := ((perm_map_key_resumed hsettled hbuilt hname).2 1 (by decide)).1
  have hoffered : ((Label.offered (labeledPage.labels 1)).filter
      (·.scheme == labeledPage.scheme.name)).map Label.key = [⟨"page", "CODE"⟩] := by decide +kernel
  exact ⟨hsettled, hbuilt, hname, List.perm_singleton.1 (hoffered ▸ hperm)⟩

end Document

end Highlighter
