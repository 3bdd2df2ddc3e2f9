import Highlighter.Proofs.Labels.LeftOpen

/-!
When an embedded region is handed on to the next line, and when the one around it is. Of the labels
that a stretch leaves open the first one stays open, and the others are nested in it.
-/

namespace Highlighter

namespace Label

/-- Whether a label lies inside another region of its own scheme that is open. -/
def IsNestedInOpen (l : Label) (labels : List Label) : Prop :=
  ∃ c ∈ labels, c.id ∈ l.containers ∧ c.scheme = l.scheme ∧ c.isOpenRegion = true

namespace Trace

variable {line : Text} {inherited : Continuations} {level first : Nat} {origin : Option Nat}
variable {s : Stretch} {t t' u v x y : Trace} {es es₁ es₂ inner : List (Nat × Stretch)}
variable {e : Nat × Stretch} {a c l p q w : Label}

/-- Whether a region on a higher level, which is nested in an open one of its scheme, has labels
in the text that is embedded in it. -/
def IsBroken (t : Trace) (level : Nat) : Prop :=
  ∃ q ∈ t.labels, q.level < level ∧ q.IsNestedInOpen t.labels ∧
    ∃ c ∈ t.labels, t.origin c.id = some q.id

/-- What is true of a label when one in the text embedded in it is left open: it is open too and
counts, unless it is nested in an open region, or a region above it is. -/
def IsExplained (t : Trace) (p : Label) : Prop :=
  t.IsBroken p.level ∨ p.IsNestedInOpen t.labels ∨ (p.stop = .lineEnd ∧ p.disabled = false)

theorem IsProper.eq_of_isTextOf {scheme : Scheme} (h : IsProper line inherited t)
    (hl : l ∈ t.labels) (hp : p ∈ t.labels) (htext : IsTextOf scheme l e)
    (htext' : IsTextOf scheme p e) : l = p :=
  h.ofLine.eq_of_id hl hp (htext.id_eq.symm.trans htext'.id_eq)

/-- Whether a label is the first of those that a stretch leaves open, the ids of which are at least
`first`. -/
structure IsFirstOpen (line : Text) (inherited : Continuations) (level : Nat) (s : Stretch)
    (first : Nat) (u : Trace) (a : Label) : Prop where
  isProper : IsProper line inherited u
  isFound : ∀ l ∈ u.labels, first ≤ l.id → s.scheme.IsFound s.stop level l
  level_lt : ∀ l ∈ u.labels, l.id < first → l.stop = .lineEnd → l.level < level
  mem : a ∈ u.labels
  first_le : first ≤ a.id
  stop_eq : a.stop = .lineEnd
  start_lt : a.start < line.length
  least : ∀ l ∈ u.labels, first ≤ l.id → l.stop = .lineEnd → l.start < line.length →
    (placing a l).isLE = true

namespace IsFirstOpen

theorem level_le (h : IsFirstOpen line inherited level s first u a) (hw : w ∈ u.labels)
    (ho : w.stop = .lineEnd) : w.level ≤ level := by
  by_cases hle : first ≤ w.id
  · exact Nat.le_of_eq (h.isFound w hw hle).level_eq
  · exact Nat.le_of_lt (h.level_lt w hw (Nat.not_le.1 hle) ho)

theorem placing_self (h : IsFirstOpen line inherited level s first u a) :
    (placing a a).isLE = true :=
  h.least a h.mem h.first_le h.stop_eq h.start_lt

/-- The text embedded in the labels of the stretch leaves alone what is open when the first one of
them begins. -/
theorem isApart (h : IsFirstOpen line inherited level s first u a) (hw : w ∈ u.labels)
    (ho : w.stop = .lineEnd) (hp : (placing w a).isLE = true)
    (he : e ∈ embeddedFrom u.labels first s.scheme) :
    IsApart w (level + 1) e.2 ∧ StartsAt u (some e.1) e.2 := by
  obtain ⟨l, hl, hfirst, htext, -⟩ := mem_embeddedFrom he
  have hwa := start_le_of_placing hp
  have hlevel := Nat.lt_succ_of_le (h.level_le hw ho)
  refine ⟨?_, .inr ⟨l, hl, congrArg some htext.id_eq, htext.start_eq⟩⟩
  rw [IsApart, htext.start_eq, htext.stop_eq]
  have hopen := h.isProper.ofLine.staysOpen h.isProper.kind_ne hw ho
    (Nat.lt_of_le_of_lt hwa h.start_lt)
  obtain hlo | ⟨n, hn⟩ | hle := hopen.others l hl
  · by_cases hlt : l.start < line.length
    · exact .inr ⟨Nat.le_trans hwa (start_le_of_placing (h.least l hl hfirst hlo hlt)), hlevel⟩
    · have := h.start_lt
      exact .inr ⟨by omega, hlevel⟩
  · exact .inl ⟨n, hn⟩
  · exact .inr ⟨start_le_of_placing hle, hlevel⟩

theorem staysOpen (h : IsFirstOpen line inherited level s first u a)
    (hruns : Runs line inherited level inner u t')
    (hinner : inner ⊆ embeddedFrom u.labels first s.scheme) (hstays : StaysInside t')
    (hw : w ∈ u.labels) (ho : w.stop = .lineEnd) (hp : (placing w a).isLE = true) :
    StaysOpen w t'.labels := by
  have hlt := Nat.lt_of_le_of_lt (start_le_of_placing hp) h.start_lt
  exact hruns.staysOpen h.isProper (h.isProper.ofLine.staysOpen h.isProper.kind_ne hw ho hlt)
    (fun e he ↦ h.isApart hw ho hp (hinner he)) hstays

/-- What is open when the first one begins is around what comes after it. -/
theorem exists_container (h : IsFirstOpen line inherited level s first u a)
    (hruns : Runs line inherited level inner u t')
    (hinner : inner ⊆ embeddedFrom u.labels first s.scheme) (hstays : StaysInside t')
    (hw : w ∈ u.labels) (ho : w.stop = .lineEnd) (hp : (placing w a).isLE = true)
    (hne : w.id ≠ l.id) (hl : (placing w l).isLE = true) (hlt : l.start < line.length)
    (hpt : p ∈ t'.labels) (hcut : p.IsCutOf l) :
    ∃ c ∈ t'.labels, c.IsCutOf w ∧ c.isOpenRegion = true ∧ c.id ∈ p.containers := by
  obtain ⟨ht', -⟩ := hruns.extends h.isProper
  obtain ⟨c, hc, hcut', ho'⟩ := (h.staysOpen hruns hinner hstays hw ho hp).exists_open
  have hregion : c.isOpenRegion = true :=
    Bool.and_eq_true_iff.2 ⟨ht'.isRegion c hc ho', by rw [ho']; rfl⟩
  refine ⟨c, hc, hcut', hregion, ht'.ofLine.mem_containers hc hregion hpt ?_ ?_ ?_⟩
  · rwa [hcut'.apply_eq id, hcut.apply_eq id]
  · rw [placing_congr hcut' (ho'.trans ho.symm)]
    exact isLE_placing_of_isCutOf hl hcut
  · rwa [hcut.apply_eq start]

theorem isNestedInOpen (h : IsFirstOpen line inherited level s first u a)
    (hruns : Runs line inherited level inner u t')
    (hinner : inner ⊆ embeddedFrom u.labels first s.scheme) (hstays : StaysInside t')
    (hq : q ∈ u.labels) (hfirst : first ≤ q.id) (hne : a.id ≠ q.id)
    (hp : (placing a q).isLE = true) (hlt : q.start < line.length) (hpt : p ∈ t'.labels)
    (hcut : p.IsCutOf q) : p.IsNestedInOpen t'.labels := by
  obtain ⟨c, hc, hcut', hregion, hmem⟩ := h.exists_container hruns hinner hstays h.mem h.stop_eq
    h.placing_self hne hp hlt hpt hcut
  refine ⟨c, hc, hmem, ?_, hregion⟩
  rw [hcut'.apply_eq Label.scheme, hcut.apply_eq Label.scheme,
    (h.isFound a h.mem h.first_le).scheme_eq, (h.isFound q hq hfirst).scheme_eq]

theorem isBroken (h : IsFirstOpen line inherited level s first u a)
    (hruns : Runs line inherited level inner u t')
    (hinner : inner ⊆ embeddedFrom u.labels first s.scheme) (hstays : StaysInside t')
    (hq : q ∈ u.labels) (hfirst : first ≤ q.id) (hne : a.id ≠ q.id)
    (hp : (placing a q).isLE = true) (hlt : q.start < line.length)
    (hc : ∃ c ∈ t'.labels, t'.origin c.id = some q.id) {i : Nat} (hi : level < i) :
    t'.IsBroken i := by
  obtain ⟨-, hextends⟩ := hruns.extends h.isProper
  obtain ⟨q', hq', hcut⟩ := hextends.cut q hq
  refine ⟨q', hq', ?_, ?_, ?_⟩
  · rwa [hcut.apply_eq Label.level, (h.isFound q hq hfirst).level_eq]
  · exact h.isNestedInOpen hruns hinner hstays hq hfirst hne hp hlt hq' hcut
  · rwa [hcut.apply_eq id]

/-- The first one stays open, and counts to the end if it did at first: the labels around it stay
open with it. -/
theorem stop_eq_and_disabled_eq (h : IsFirstOpen line inherited level s first u a)
    (hruns : Runs line inherited level inner u t')
    (hinner : inner ⊆ embeddedFrom u.labels first s.scheme) (hstays : StaysInside t')
    (hactive : a.id ∈ activeIds u.labels) (hpt : p ∈ t'.labels) (hcut : p.IsCutOf a) :
    p.stop = .lineEnd ∧ p.disabled = false := by
  obtain ⟨ht', -⟩ := hruns.extends h.isProper
  obtain ⟨a', ha', hcut', ho'⟩ :=
    (h.staysOpen hruns hinner hstays h.mem h.stop_eq h.placing_self).exists_open
  obtain rfl : a' = p := ht'.ofLine.eq_of_id ha' hpt (by rw [hcut'.apply_eq id, hcut.apply_eq id])
  refine ⟨ho', Bool.not_eq_true _ ▸ fun hdisabled ↦ ?_⟩
  obtain ⟨name, hname, hnone⟩ := (ht'.ofLine.nested.disabled a' ha').1 hdisabled
  rw [hcut.apply_eq Label.requires] at hname
  -- the label that it requires was around it at first, and is still
  obtain ⟨w, hw, hmem, hwname⟩ := h.isProper.ofLine.exists_required h.mem hactive hname
  obtain ⟨ho, hp, hne⟩ := h.isProper.ofLine.of_mem_containers h.mem h.stop_eq hw hmem
  obtain ⟨c, hc, hcut'', -, hcmem⟩ := h.exists_container hruns hinner hstays hw ho hp hne hp
    h.start_lt hpt hcut
  exact hnone c hc hcmem ((hcut''.apply_eq Label.name).trans hwname)

/-- An open label in the stretch is the first one, or nested in it. -/
theorem isExplained (h : IsFirstOpen line inherited level s first u a)
    (hruns : Runs line inherited level inner u t')
    (hinner : inner ⊆ embeddedFrom u.labels first s.scheme) (hstays : StaysInside t')
    (hl : l ∈ u.labels) (hfirst : first ≤ l.id) (ho : l.stop = .lineEnd)
    (hlt : l.start < line.length) (hactive : l.id ∈ activeIds u.labels) (hpt : p ∈ t'.labels)
    (hid : p.id = l.id) : t'.IsExplained p := by
  obtain ⟨ht', hextends⟩ := hruns.extends h.isProper
  obtain ⟨l', hl', hcut⟩ := hextends.exists_source h.isProper ht' hpt (hid ▸ h.isProper.id_lt hl)
  obtain rfl := h.isProper.ofLine.eq_of_id hl' hl ((hcut.apply_eq id).symm.trans hid)
  by_cases hne : a.id = l'.id
  · obtain rfl := h.isProper.ofLine.eq_of_id h.mem hl hne
    exact .inr (.inr (h.stop_eq_and_disabled_eq hruns hinner hstays hactive hpt hcut))
  · exact .inr (.inl (h.isNestedInOpen hruns hinner hstays hl hfirst hne
      (h.least l' hl hfirst ho hlt) hlt hpt hcut))

/-- Labels before the first open one are closed, and so is the text embedded in them. -/
theorem level_le_of_runs (h : IsFirstOpen line inherited level s first u a) (hline : line ≠ [])
    (hruns : Runs line inherited level es u v)
    (hes : ∀ e ∈ es, ∃ l ∈ u.labels, first ≤ l.id ∧ IsTextOf s.scheme l e ∧ l.id ≠ a.id ∧
      (l.stop = .lineEnd → (placing l a).isLE = true))
    (hw : w ∈ v.labels) (ho : w.stop = .lineEnd) : w.level ≤ level := by
  obtain ⟨hv, hextends⟩ := hruns.extends h.isProper
  by_cases hlt : w.id < u.labels.length
  · obtain ⟨w', hw', hcut⟩ := hextends.exists_source h.isProper hv hw hlt
    rw [hcut.apply_eq Label.level]
    exact h.level_le hw' (hcut.stop_eq_lineEnd ho)
  · obtain ⟨e, he, hlabeled, hstop⟩ :=
      hruns.exists_of_stop_eq_lineEnd h.isProper hw (Nat.not_lt.1 hlt) ho
    obtain ⟨l, hl, hfirst, htext, hne, hplacing⟩ := hes e he
    have hlo : l.stop = .lineEnd := htext.stop_eq ▸ hstop
    have hle := h.least l hl hfirst hlo (htext.start_lt hlabeled hline)
    exact absurd (id_eq_of_placing (hplacing hlo) hle) hne

end IsFirstOpen

theorem exists_isFirstOpen (hu : IsProper line inherited u)
    (hfound : ∀ l ∈ u.labels, first ≤ l.id → s.scheme.IsFound s.stop level l)
    (hlevel : ∀ l ∈ u.labels, l.id < first → l.stop = .lineEnd → l.level < level)
    (hl : l ∈ u.labels) (hfirst : first ≤ l.id) (ho : l.stop = .lineEnd)
    (hlt : l.start < line.length) : ∃ a, IsFirstOpen line inherited level s first u a := by
  obtain ⟨a, ha⟩ : ∃ a, u.labels.find? (fun l ↦ decide
      (first ≤ l.id ∧ l.stop = .lineEnd ∧ l.start < line.length)) = some a := by
    rw [← Option.isSome_iff_exists, List.find?_isSome]
    exact ⟨l, hl, decide_eq_true ⟨hfirst, ho, hlt⟩⟩
  obtain ⟨hp, before, after, he, hbefore⟩ := List.find?_eq_some_iff_append.1 ha
  obtain ⟨hafirst, hao, halt⟩ := of_decide_eq_true hp
  have hplacing := hu.ofLine.pairwise_placing
  rw [he] at hplacing
  obtain ⟨-, hafter, -⟩ := List.pairwise_append.1 hplacing
  refine ⟨a, hu, hfound, hlevel, List.mem_of_find?_eq_some ha, hafirst, hao, halt, ?_⟩
  intro l hl hfirst ho hlt
  rw [he] at hl
  obtain hl | hl := List.mem_append.1 hl
  · have hnot := hbefore l hl
    rw [decide_eq_true ⟨hfirst, ho, hlt⟩] at hnot
    cases hnot
  · obtain rfl | hl := List.mem_cons.1 hl
    · rw [placing_eq]
      simp [Std.ReflCmp.compare_self]
    · exact ((List.pairwise_cons.1 hafter).1 l hl).1 hao

/-- Whether a run leaves labels open in explained ones only, if it begins with no label open on its
own level or below. -/
def Explains (line : Text) (inherited : Continuations) (level : Nat) (origin : Option Nat)
    (s : Stretch) (t t' : Trace) : Prop :=
  IsProper line inherited t → (∀ l ∈ t.labels, l.stop = .lineEnd → l.level < level) →
    (∀ k, origin = some k → k < t.labels.length) → StartsAt t origin s → StaysInside t' →
    ∀ c ∈ t'.labels, ∀ p ∈ t'.labels, t.labels.length ≤ c.id → t.labels.length ≤ p.id →
      t'.origin c.id = some p.id → c.stop = .lineEnd → t'.IsExplained p

/-- A label in the text of the first open label is explained in that text, if labels were added
there last. If not, they were added in a region that is nested in the first open one. -/
theorem IsFirstOpen.isExplained_of_inner (h : IsFirstOpen line inherited level s first u a)
    (hline : line ≠ [])
    (hinner : (es₁ ++ e :: es₂).Sublist (embeddedFrom u.labels first s.scheme))
    (hruns : Runs line inherited level (es₁ ++ e :: es₂) u t')
    (hadded : IsAddedAt line inherited (fun e x y ↦
      IsRun line inherited (level + 1) (some e.1) e.2 x y ∧
        Explains line inherited (level + 1) (some e.1) e.2 x y) es₁ e es₂ u x y t' l c)
    (htext : IsTextOf s.scheme a e) (hstays : StaysInside t') (hc : c ∈ t'.labels)
    (hp : p ∈ t'.labels) (hple : x.labels.length ≤ p.id) (hlevel : level < p.level)
    (ho : t'.origin c.id = some p.id) (hopen : c.stop = .lineEnd) : t'.IsExplained p := by
  have hpair := (pairwise_embeddedFrom (h.isProper.ofLine.pairwise_placing.and
    h.isProper.ofLine.pairwise_ids) first s.scheme).sublist hinner
  obtain ⟨-, hlast, hfore⟩ := List.pairwise_append.1 hpair
  have hbefore : Runs line inherited level es₁ u x := hadded.before.imp fun h ↦ h.1
  have hafter : Runs line inherited level es₂ y t' := hadded.after.imp fun h ↦ h.1
  obtain rfl | ⟨e', he', hlabeled, b, hb, hbo⟩ :=
    hafter.eq_or_exists_origin hadded.isProper_after
  · have hstart : StartsAt u (some e.1) e.2 :=
      .inr ⟨a, h.mem, congrArg some htext.id_eq, htext.start_eq⟩
    refine hadded.taken.2 hadded.isProper_before (fun b hb hbo ↦ ?_) ?_
      (hstart.of_extends hadded.extends_before) hstays c hc p hp ?_ hple ho hopen
    · refine Nat.lt_succ_of_le (h.level_le_of_runs hline hbefore (fun e₁ he₁ ↦ ?_) hb hbo)
      obtain ⟨l₁, hl₁, l₂, hl₂, hfirst₁, htext₁, -, htext₂, ⟨hplacing, -⟩, hids⟩ :=
        hfore e₁ he₁ e List.mem_cons_self
      obtain rfl := h.isProper.eq_of_isTextOf hl₂ h.mem htext₂ htext
      exact ⟨l₁, hl₁, hfirst₁, htext₁, hids, hplacing⟩
    · rintro k ⟨⟩
      rw [htext.id_eq]
      exact Nat.lt_of_lt_of_le (h.isProper.id_lt h.mem) hadded.extends_before.length_le
    · rw [hadded.isCutOf.apply_eq id]
      exact hadded.length_le
  · obtain ⟨l₁, hl₁, l₂, hl₂, -, htext₁, hfirst₂, htext₂, ⟨hplacing, -⟩, hids⟩ :=
      (List.pairwise_cons.1 hlast).1 e' he'
    obtain rfl := h.isProper.eq_of_isTextOf hl₁ h.mem htext₁ htext
    exact .inl (h.isBroken hruns hinner.subset hstays hl₂ hfirst₂ hids (hplacing h.stop_eq)
      (htext₂.start_lt hlabeled hline) ⟨b, hb, hbo.trans (congrArg some htext₂.id_eq)⟩ hlevel)

theorem isExplained_of_chain (hline : line ≠ []) (hu : IsProper line inherited u)
    (hfound : ∀ l ∈ u.labels, first ≤ l.id → s.scheme.IsFound s.stop level l)
    (hlevel : ∀ l ∈ u.labels, l.id < first → l.stop = .lineEnd → l.level < level)
    (hinner : inner.Sublist (embeddedFrom u.labels first s.scheme))
    (hchain : Chain (fun e x y ↦ IsRun line inherited (level + 1) (some e.1) e.2 x y ∧
      Explains line inherited (level + 1) (some e.1) e.2 x y) inner u t')
    (hstays : StaysInside t') (hc : c ∈ t'.labels) (hp : p ∈ t'.labels)
    (hcle : u.labels.length ≤ c.id) (ho : t'.origin c.id = some p.id)
    (hopen : c.stop = .lineEnd) : t'.IsExplained p := by
  have hruns : Runs line inherited level inner u t' := hchain.imp fun h ↦ h.1
  -- the label in whose embedded text the open one was found
  obtain ⟨es₁, e, es₂, x, y, source, rfl, hadded⟩ :=
    hchain.exists_isAddedAt hu (fun h ↦ h.1.extends) hc hcle
  obtain ⟨hrun, -⟩ := hadded.taken
  have hx := hadded.isProper_before
  have hy := hadded.isProper_after
  have hyt := hadded.extends_after
  obtain ⟨l, hl, hfirst, htext, hactive⟩ :=
    mem_embeddedFrom (hinner.subset (List.mem_append_right _ List.mem_cons_self))
  obtain ⟨hlabeled, hstop⟩ := hrun.of_stop_eq_lineEnd hx hadded.mem hadded.length_le
    (hadded.isCutOf.stop_eq_lineEnd hopen)
  have hlo : l.stop = .lineEnd := htext.stop_eq ▸ hstop
  have hlt := htext.start_lt hlabeled hline
  obtain ⟨a, ha⟩ := exists_isFirstOpen hu hfound hlevel hl hfirst hlo hlt
  obtain ⟨ho', -⟩ | ⟨q, hq, hxq, ho', -⟩ :=
    (hrun.isAddedBy hx source hadded.mem hadded.length_le).of_extends hyt
      (hy.id_lt hadded.mem) hadded.isCutOf
  · -- it was found in that text itself
    have hid : p.id = l.id := Option.some.inj (ho.symm.trans (htext.id_eq ▸ ho'))
    exact ha.isExplained hruns hinner.subset hstays hl hfirst hlo hlt hactive hp hid
  · -- it was found further in
    have hid : p.id = q.id := Option.some.inj (ho.symm.trans ho')
    have hlower : level < p.level :=
      hruns.level_lt hu p hp (hid ▸ Nat.le_trans hadded.extends_before.length_le hxq)
    by_cases hne : a.id = l.id
    · obtain rfl := hu.ofLine.eq_of_id ha.mem hl hne
      exact ha.isExplained_of_inner hline hinner hruns hadded htext hstays hc hp (hid ▸ hxq)
        hlower ho hopen
    · obtain rfl | ⟨-, b, hb, hbo⟩ := hrun.eq_or_exists_origin hx
      · have := hx.id_lt hadded.mem
        have := hadded.length_le
        omega
      · obtain ⟨b', hb', hbcut⟩ := hyt.cut b hb
        refine .inl (ha.isBroken hruns hinner.subset hstays hl hfirst hne
          (ha.least l hl hfirst hlo hlt) hlt ⟨b', hb', ?_⟩ hlower)
        rw [hbcut.apply_eq id, hyt.origin _ (hy.id_lt hb), hbo, htext.id_eq]

theorem IsRun.explains (h : IsRun line inherited level origin s t t') (hline : line ≠ []) :
    Explains line inherited level origin s t t' := by
  refine IsRun.induct (motive := Explains line inherited) ?_ ?_ h
  · intro _ _ _ t ht _ _ _ _ c hc _ _ hle
    have := ht.id_lt hc
    omega
  · intro level origin s t inner t' _ hinner hchain ht hlevel horigin hstart hstays c hc p hp hcle
      hple ho hopen
    have hadd := ht.add origin level s
    have hextends := extends_add line t origin (foundIn line inherited level s)
    obtain ⟨-, hextends'⟩ := hchain.extends hadd fun h ↦ h.1.extends
    refine isExplained_of_chain hline hadd (fun l hl ↦ mem_labels_add ht origin hl) ?_ hinner
      hchain hstays hc hp (hextends'.length_add_le horigin hcle hple ho) ho hopen
    intro l hl hlt hlo
    obtain ⟨source, hs, hcut⟩ := hextends.exists_source ht hadd hl hlt
    rw [hcut.apply_eq Label.level]
    exact hlevel source hs (hcut.stop_eq_lineEnd hlo)

/-! ### Lines without characters -/

theorem disabled_of_le (ht : IsProper line inherited t) (hl : l ∈ t.labels)
    (hle : line.length ≤ l.start) : l.disabled = l.requires.isSome := by
  obtain ⟨sources, he⟩ := ht.ofLine.placed
  rw [he] at hl
  obtain ⟨source, -, before, -, rfl⟩ := exists_source_of_mem_place hl
  exact (congrArg Label.disabled (placeAfter_of_le (l := source) hle)).trans rfl

theorem Extends.of_le (h : Extends line t t') (ht : IsProper line inherited t)
    (ht' : IsProper line inherited t') (hl : l ∈ t.labels) (hp : p ∈ t'.labels)
    (hid : p.id = l.id) (hle : line.length ≤ l.start) :
    p.stop = l.stop ∧ p.disabled = l.disabled := by
  obtain ⟨l', hl', hcut, hstop⟩ := h.past l hl hle
  obtain rfl := ht'.ofLine.eq_of_id hl' hp ((hcut.apply_eq id).trans hid.symm)
  refine ⟨hstop, ?_⟩
  rw [disabled_of_le ht hl hle, disabled_of_le ht' hp (hcut.apply_eq start ▸ hle),
    hcut.apply_eq Label.requires]

theorem stop_of_isLabeled_nil (h : s.isLabeled ([] : Text).length = true) :
    s.stop = .lineEnd := by
  rw [Stretch.isLabeled, Bool.or_eq_true, decide_eq_true_eq] at h
  cases hs : s.stop with
  | lineEnd => rfl
  | column n =>
    rw [hs, Stop.resolve, Stop.isOpen] at h
    obtain h | h := h
    · exact absurd h (by simp)
    · simp at h

/-- Nothing is cut in a line without characters: what has labels in the text embedded in it stays
open. -/
theorem IsRun.stop_eq_and_disabled_eq (h : IsRun [] inherited level origin s t t')
    (ht : IsProper [] inherited t) (horigin : ∀ k, origin = some k → k < t.labels.length) :
    ∀ c ∈ t'.labels, ∀ p ∈ t'.labels, t.labels.length ≤ c.id → t.labels.length ≤ p.id →
      t'.origin c.id = some p.id → p.stop = .lineEnd ∧ p.disabled = false := by
  refine IsRun.induct (motive := fun _ origin _ t t' ↦ IsProper [] inherited t →
    (∀ k, origin = some k → k < t.labels.length) →
    ∀ c ∈ t'.labels, ∀ p ∈ t'.labels, t.labels.length ≤ c.id → t.labels.length ≤ p.id →
      t'.origin c.id = some p.id → p.stop = .lineEnd ∧ p.disabled = false) ?_ ?_ h ht horigin
  · intro _ _ _ t ht _ c hc _ _ hle
    have := ht.id_lt hc
    omega
  · intro level origin s t inner t' _ hinner hchain ht horigin c hc p hp hcle hple ho
    have hadd := ht.add origin level s
    obtain ⟨ht', hextends⟩ := hchain.extends hadd fun h ↦ h.1.extends
    obtain ⟨es₁, e, es₂, x, y, source, rfl, hadded⟩ :=
      hchain.exists_isAddedAt hadd (fun h ↦ h.1.extends) hc
        (hextends.length_add_le horigin hcle hple ho)
    obtain ⟨hrun, hinside⟩ := hadded.taken
    have hy := hadded.isProper_after
    have hyt := hadded.extends_after
    rw [hadded.isCutOf.apply_eq id, hyt.origin _ (hy.id_lt hadded.mem)] at ho
    obtain ⟨l, hl, -, htext, hactive⟩ :=
      mem_embeddedFrom (hinner.subset (List.mem_append_right _ List.mem_cons_self))
    obtain ⟨ho', hlabeled, -⟩ | ⟨q, hq, hxq, ho', -⟩ :=
      hrun.isAddedBy hadded.isProper_before source hadded.mem hadded.length_le
    · have hid : p.id = l.id := Option.some.inj (ho.symm.trans (htext.id_eq ▸ ho'))
      obtain ⟨hstop, hdisabled⟩ := hextends.of_le hadd ht' hl hp hid (Nat.zero_le _)
      obtain ⟨b, hb, hbid, henabled⟩ := exists_of_mem_activeIds hactive
      obtain rfl := hadd.ofLine.eq_of_id hb hl hbid
      refine ⟨hstop.trans ?_, hdisabled.trans henabled⟩
      rw [← htext.stop_eq]
      exact stop_of_isLabeled_nil hlabeled
    · have hid : p.id = q.id := Option.some.inj (ho.symm.trans ho')
      obtain ⟨hstop, hdisabled⟩ := hyt.of_le hy ht' hq hp hid (Nat.zero_le _)
      rw [hstop, hdisabled]
      refine hinside hadded.isProper_before ?_ source hadded.mem q hq hadded.length_le hxq ho'
      rintro k ⟨⟩
      rw [htext.id_eq]
      exact Nat.lt_of_lt_of_le (hadd.id_lt hl) hadded.extends_before.length_le

/-! ### What a line hands on -/

instance (l : Label) (labels : List Label) : Decidable (l.IsNestedInOpen labels) :=
  inferInstanceAs (Decidable (∃ c ∈ labels, c.id ∈ l.containers ∧ c.scheme = l.scheme ∧
    c.isOpenRegion = true))

instance (t : Trace) (level : Nat) : Decidable (t.IsBroken level) :=
  inferInstanceAs (Decidable (∃ q ∈ t.labels, q.level < level ∧ q.IsNestedInOpen t.labels ∧
    ∃ c ∈ t.labels, t.origin c.id = some q.id))

instance (t : Trace) : Decidable t.StaysInside :=
  inferInstanceAs (Decidable (∀ c ∈ t.labels, ∀ p ∈ t.labels, t.origin c.id = some p.id →
    p.start ≤ c.start))

/-- Whether a line that hands on a region in embedded text hands on the one around it as well. -/
def HandsOnAround (t : Trace) : Prop :=
  ∀ c ∈ t.labels, c.isOfferedBy t.labels = true → 1 ≤ c.level →
    ∃ p ∈ t.labels, t.origin c.id = some p.id ∧ p.isOfferedBy t.labels = true

instance (t : Trace) : Decidable t.HandsOnAround :=
  inferInstanceAs (Decidable (∀ c ∈ t.labels, c.isOfferedBy t.labels = true → 1 ≤ c.level →
    ∃ p ∈ t.labels, t.origin c.id = some p.id ∧ p.isOfferedBy t.labels = true))

/-- The conditions under which a label is handed on when one in the text embedded in it is. -/
def conditions (t : Trace) (p : Label) : List Bool :=
  [decide t.StaysInside, !decide (t.IsBroken p.level), p.multiLine, !p.isNestedIn t.labels]

/-- Whether a region in embedded text is handed on, but not the one around it, which is on a level
and meets the conditions as given. -/
def Abandons (t : Trace) (level : Nat) (conditions : List Bool) : Prop :=
  ∃ c ∈ t.labels, c.isOfferedBy t.labels = true ∧ ∃ p ∈ t.labels, t.origin c.id = some p.id ∧
    p.isOfferedBy t.labels = false ∧ p.level = level ∧ t.conditions p = conditions

instance (t : Trace) (level : Nat) (conditions : List Bool) :
    Decidable (t.Abandons level conditions) :=
  inferInstanceAs (Decidable (∃ c ∈ t.labels, c.isOfferedBy t.labels = true ∧ ∃ p ∈ t.labels,
    t.origin c.id = some p.id ∧ p.isOfferedBy t.labels = false ∧ p.level = level ∧
      t.conditions p = conditions))

theorem not_isBroken_zero (t : Trace) : ¬t.IsBroken 0 :=
  fun ⟨q, _, hlt, _⟩ ↦ Nat.not_lt_zero q.level hlt

end Trace

end Label

namespace Scheme

open Label Label.Trace

theorem isExplained_trace (s : Scheme) {line : Text} {inherited : Continuations}
    {maxNesting : Nat} (hstays : (s.trace line inherited maxNesting).StaysInside) {c p : Label}
    (hc : c ∈ (s.trace line inherited maxNesting).labels)
    (hp : p ∈ (s.trace line inherited maxNesting).labels)
    (ho : (s.trace line inherited maxNesting).origin c.id = some p.id)
    (hopen : c.stop = .lineEnd) : (s.trace line inherited maxNesting).IsExplained p := by
  have hrun := s.isRun_trace line inherited maxNesting
  have ht := isProper_nil line inherited
  by_cases hline : line = []
  · subst hline
    exact .inr (.inr (hrun.stop_eq_and_disabled_eq ht nofun c hc p hp (Nat.zero_le _)
      (Nat.zero_le _) ho))
  · exact hrun.explains hline ht (fun _ hl ↦ absurd hl List.not_mem_nil) nofun (.inl rfl) hstays
      c hc p hp (Nat.zero_le _) (Nat.zero_le _) ho hopen

/-- A region in embedded text that is handed on was found inside another region, on the level above.
If no label starts before the one around it, and no region further up, which is nested in an open
one of its scheme, has labels inside, then that region is handed on too, just if its rule is for
several lines and it is not nested in a region of its scheme. -/
theorem isOfferedBy_around_iff (s : Scheme) (line : Text) (inherited : Continuations)
    (maxNesting : Nat) :
    let t := s.trace line inherited maxNesting
    t.labels = s.labelLine line inherited maxNesting ∧
    ∀ c ∈ t.labels, c.isOfferedBy t.labels = true → 1 ≤ c.level →
      ∃ p ∈ t.labels, t.origin c.id = some p.id ∧ IsBelow c p ∧ p.isRegion = true ∧
        (t.StaysInside → ¬t.IsBroken p.level →
          (p.isOfferedBy t.labels = true ↔
            p.multiLine = true ∧ p.isNestedIn t.labels = false)) := by
  intro t
  have hrun := s.isRun_trace line inherited maxNesting
  have ht := isProper_nil line inherited
  have ht' := s.isProper_trace line inherited maxNesting
  refine ⟨s.labels_trace line inherited maxNesting, fun c hc hoffered hlevel ↦ ?_⟩
  have hopen := (isOpenRegion_iff.1 (isOpenRegion_of_isOfferedBy hoffered)).2
  obtain ⟨-, -, hzero, -⟩ | ⟨p, hp, -, ho, hbelow⟩ := hrun.isAddedBy ht c hc (Nat.zero_le _)
  · omega
  · refine ⟨p, hp, ho, hbelow, hbelow.2.1 hopen, fun hstays hbroken ↦ ⟨fun h ↦ ?_, ?_⟩⟩
    · simp only [isOfferedBy, Bool.and_eq_true, Bool.not_eq_true'] at h
      exact ⟨h.1.1.2, h.2⟩
    · rintro ⟨hmulti, hnested⟩
      have hexplained := s.isExplained_trace hstays hc hp ho hopen
      obtain hb | ⟨q, hq, hmem, hscheme, hq'⟩ | ⟨hstop, hdisabled⟩ := hexplained
      · exact absurd hb hbroken
      · have := ht'.ofLine.isNestedIn_of_mem hq (Bool.and_eq_true_iff.1 hq').1 hscheme hmem
        rw [hnested] at this
        cases this
      · simp only [isOfferedBy, isOpenRegion, hbelow.2.1 hopen, hstop, hmulti, hdisabled, hnested]
        rfl

/-- A scheme of some rules, ranked as they come, and with schemes embedded in some of them. -/
def sample (name : String) (rules : List Rule) (embedded : List (String × Scheme)) : Scheme :=
  let draft := embedded.foldl (fun d e ↦ d.embed e.1 e.2) ((Draft.new name).labels rules)
  draft.build.toOption.getD default

/-- A rule for regions of several lines that one character opens and nothing closes. -/
def opened (name : String) (c : Char) : Rule :=
  { Rule.delimited name .plain [c] with multiLine := true }

def comments : Scheme := sample "script" [opened "COMMENT" 'c'] []

def scripts : Scheme := sample "page" [opened "SCRIPT" 's'] [("SCRIPT", comments)]

/-- A comment in a script, both left open. -/
theorem isOfferedBy_around_scripts :
    let t := scripts.trace "s c".toList [] 8
    ∃ c ∈ t.labels, c.key = ⟨"script", "COMMENT"⟩ ∧ c.isOfferedBy t.labels = true ∧
      1 ≤ c.level ∧ t.StaysInside ∧ ¬t.IsBroken 0 ∧
      ∃ p ∈ t.labels, t.origin c.id = some p.id ∧ p.isOfferedBy t.labels = true := by
  intro t
  have hstays : t.StaysInside := by decide +kernel
  obtain ⟨c, hc, hkey, hoffered, hlevel, hc'⟩ : ∃ c ∈ t.labels,
      c.key = ⟨"script", "COMMENT"⟩ ∧ c.isOfferedBy t.labels = true ∧ 1 ≤ c.level ∧
      ∀ p ∈ t.labels, t.origin c.id = some p.id →
        p.level = 0 ∧ p.multiLine = true ∧ p.isNestedIn t.labels = false := by
    decide +kernel
  obtain ⟨p, hp, ho, -, -, hiff⟩ :=
    (scripts.isOfferedBy_around_iff "s c".toList [] 8).2 c hc hoffered hlevel
  obtain ⟨hzero, hp'⟩ := hc' p hp ho
  have hbroken : ¬t.IsBroken p.level := by
    rw [hzero]
    exact t.not_isBroken_zero
  exact ⟨c, hc, hkey, hoffered, hlevel, hstays, t.not_isBroken_zero, p, hp, ho,
    (hiff hstays hbroken).2 hp'⟩

def tags : Scheme := sample "page" [opened "SCRIPT" 's', opened "TAG" 't'] [("SCRIPT", comments)]

/-- A comment goes on without the script around it: if the script is inside a tag. Each of the other
conditions is needed as well: for a script of one line, for one that a label of its own text is
around, and for text in a tag that a label in the script inside that tag cuts. -/
theorem not_handsOnAround :
    ¬(tags.trace "tsc".toList [] 8).HandsOnAround ∧
    (tags.trace "tsc".toList [] 8).Abandons 0 [true, true, true, false] ∧
    ((sample "page" [{ opened "SCRIPT" 's' with multiLine := false }]
      [("SCRIPT", comments)]).trace "sc".toList [] 8).Abandons 0 [true, true, false, true] ∧
    ((sample "page" [opened "SCRIPT" 's'] [("SCRIPT", sample "script"
      [{ (opened "WORD" 'w').withCloser ['v'] with extension := ⟨.shift (-2), .shift 0⟩ },
        opened "COMMENT" 'c'] [])]).trace "xswvc".toList [] 8).Abandons 0
      [false, true, true, true] ∧
    ((sample "page" [opened "SCRIPT" 's', opened "TAG" 't']
      [("SCRIPT", sample "words" [(opened "WORD" 'w').withCloser ['v']] []),
        ("TAG", sample "tag" [opened "TEXT" 'x'] [("TEXT", comments)])]).trace
      "tswxvc".toList [] 8).Abandons 1 [true, false, true, true] := by
  decide +kernel

end Scheme

end Highlighter
