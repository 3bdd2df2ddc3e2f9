import Highlighter.Proofs.Labels.Origins
import Highlighter.Proofs.Labels.Words

/-!
Where the labels of embedded text start, and by which scheme they are found: the one that is
embedded in the label in whose text they are. They start in that text unless their rule moves them
out of it to the left.
-/

namespace Highlighter

theorem Extension.le_startOf_or {e : Extension} {offset : Nat} {m : Nat × Nat} (hm : offset ≤ m.1)
    (hm' : m.1 < m.2) (hmax : offset ≤ maxOffset) :
    offset ≤ e.startOf m ∨ ∃ n < 0, e.start = .shift n := by
  cases he : e.start with
  | exclude =>
    left
    rw [startOf, he]
    exact Nat.le_trans hm (Nat.le_of_lt hm')
  | shift n =>
    by_cases hn : n < 0
    · exact .inr ⟨n, hn, rfl⟩
    · left
      rw [startOf, he]
      show offset ≤ min (m.1 + n).toNat maxOffset
      exact Nat.le_min.2 ⟨by omega, hmax⟩

namespace Scheme

/-- The schemes of the texts on a level: the given one on the first level, and those embedded in it
on the next. -/
def onLevel (root : Scheme) : Nat → List Scheme
  | 0 => [root]
  | k + 1 => (root.onLevel k).flatMap fun outer ↦ outer.subSchemes.map Prod.snd

/-- Whether one label can have another one in its text: it is on the level above, and its scheme has
that of the other one embedded in the labels of its name. -/
def Embeds (root : Scheme) (p c : Label) : Prop :=
  p.level + 1 = c.level ∧ ∃ outer ∈ root.onLevel p.level, outer.name = p.scheme ∧
    (outer.subScheme? p.name).map Scheme.name = some c.scheme

instance (root : Scheme) (p c : Label) : Decidable (root.Embeds p c) :=
  inferInstanceAs (Decidable (_ ∧ _))

/-- Whether a rule for labels of some name lets them start before what it matches. -/
def MovesLeft (s : Scheme) (name : String) : Prop :=
  ∃ r ∈ s.rules, r.name = name ∧ ∃ n < 0, r.extension.start = .shift n

variable {root s sub : Scheme} {offset level k : Nat} {stop : Stop} {t : Text} {name : String}
variable {inherited : Continuations} {entry : Precedence} {l : Label}

theorem mem_of_subScheme? (h : s.subScheme? name = some sub) : (name, sub) ∈ s.subSchemes := by
  obtain ⟨l₁, l₂, he, -⟩ := List.lookup_eq_some_iff.1 h
  rw [he]
  exact List.mem_append_right _ List.mem_cons_self

theorem subScheme?_mem_onLevel (hs : s ∈ root.onLevel k) (h : s.subScheme? name = some sub) :
    sub ∈ root.onLevel (k + 1) :=
  List.mem_flatMap.2 ⟨s, hs, List.mem_map.2 ⟨(name, sub), mem_of_subScheme? h, rfl⟩⟩

theorem le_start_of_mem_entryWords (h : l ∈ s.entryWords offset t entry) : offset ≤ l.start := by
  obtain ⟨name, -, h⟩ := List.mem_flatMap.1 h
  split at h
  · split at h
    · cases h
    · rw [Rule.words] at h
      split at h
      · obtain ⟨w, hw, rfl⟩ := List.mem_map.1 h
        exact SearchStrategy.le_start_of_mem_words (List.mem_filter.1 hw).1
      · cases h
  · cases h

theorem le_start_or_of_mem_pairedRegions (hmax : offset ≤ maxOffset)
    (h : l ∈ s.pairedRegions offset t inherited entry) :
    offset ≤ l.start ∨ s.MovesLeft l.name := by
  have hscan := s.leftmostScan_pairedRegions offset t inherited entry
  by_cases hk : l.kind = .continued
  · rw [(hscan.resumed l h hk).1]
    exact .inl (Nat.zero_le _)
  · obtain ⟨order, r, hr, start, hstart, hl, -⟩ := hscan.opened l h hk
    obtain ⟨_, _, rfl⟩ := hl.exists_eq
    have horder := r.inOrder_openings s.name order offset t
    have hfrom := horder.from_le start hstart
    have hnonempty := horder.nonempty start hstart
    obtain ⟨m, -, rfl⟩ := Rule.eq_labelAt_of_mem_openings hstart
    refine (Extension.le_startOf_or hfrom hnonempty hmax).imp_right fun hleft ↦ ?_
    exact ⟨r, List.mem_of_getElem? (getElem?_of_mem_delimitedRules hr), rfl, hleft⟩

theorem le_start_or_of_mem_regions (hmax : offset ≤ maxOffset)
    (hstop : ∀ limit, stop = .column limit → offset ≤ limit)
    (h : l ∈ s.regions offset stop t inherited level) :
    offset ≤ l.start ∨ s.MovesLeft l.name := by
  obtain ⟨l, hl, rfl⟩ := List.mem_map.1 h
  have hstart : offset ≤ l.start ∨ s.MovesLeft l.name := by
    obtain ⟨entry, -, hl⟩ := List.mem_flatMap.1 hl
    obtain hl | hl := List.mem_append.1 hl
    · exact .inl (le_start_of_mem_entryWords hl)
    · exact le_start_or_of_mem_pairedRegions hmax hl
  cases stop with
  | lineEnd => exact hstart
  | column limit =>
    refine hstart.imp_left fun hle ↦ ?_
    exact Nat.le_min.2 ⟨hle, hstop limit rfl⟩

end Scheme

namespace Stretch

variable {s : Stretch} {length n : Nat}

theorem start_le_of_isLabeled (h : s.isLabeled length = true) : s.start ≤ length := by
  rw [isLabeled, Bool.or_eq_true, decide_eq_true_eq, Bool.and_eq_true, beq_iff_eq] at h
  have hle : s.stop.resolve length ≤ length := by
    cases s.stop with
    | column n => exact Nat.min_le_right n length
    | lineEnd => exact Nat.le_refl length
  omega

theorem start_lt_of_isLabeled (h : s.isLabeled length = true) (hs : s.stop = .column n) :
    s.start < n := by
  rw [isLabeled, hs, Bool.or_eq_true, decide_eq_true_eq, Bool.and_eq_true] at h
  obtain hlt | ⟨-, hopen⟩ := h
  · exact Nat.lt_of_lt_of_le hlt (Nat.min_le_left n length)
  · cases hopen

end Stretch

namespace Label.Trace

variable {line : Text} {inherited : Continuations} {level : Nat} {origin : Option Nat}
variable {root : Scheme} {s : Stretch} {first : Nat} {t t' : Trace} {c l : Label}

/-- Whether a label starts at a column or after it, if its rule in the given scheme does not let it
start before what it matches. -/
def StartsFrom (line : Text) (s : Scheme) (column : Nat) (c : Label) : Prop :=
  c.start < column → line.length ≤ maxOffset → s.MovesLeft c.name

/-- Whether a label that was added was found in the stretch of a run, or in the text embedded in
another label that was added, by the scheme for it. -/
def IsFoundBy (line : Text) (root : Scheme) (level : Nat) (origin : Option Nat) (s : Stretch)
    (first : Nat) (t : Trace) (c : Label) : Prop :=
  (t.origin c.id = origin ∧ c.level = level ∧ c.scheme = s.scheme.name ∧
    StartsFrom line s.scheme s.start c) ∨
  ∃ p ∈ t.labels, first ≤ p.id ∧ t.origin c.id = some p.id ∧ root.Embeds p c ∧
    ∃ inner ∈ root.onLevel c.level, inner.name = c.scheme ∧ StartsFrom line inner p.start c

theorem startsFrom_of_mem_add (ht : IsProper line inherited t)
    (hl : l ∈ (t.add origin (foundIn line inherited level s) line.length).labels)
    (hle : t.labels.length ≤ l.id) : StartsFrom line s.scheme s.start l := by
  obtain ⟨source, hs, hcut⟩ | ⟨-, source, hs, hcut⟩ := exists_source_of_mem_add hl
  · have := ht.id_lt hs
    rw [hcut.apply_eq id] at hle
    omega
  · have hstart : l.start = source.start := hcut.apply_eq Label.start
    have hname : l.name = source.name := hcut.apply_eq Label.name
    rw [StartsFrom, hstart, hname]
    intro hlt hmax
    have hlabeled := isLabeled_of_foundIn_ne (List.ne_nil_of_mem hs)
    rw [foundIn, if_pos hlabeled] at hs
    have hle := Stretch.start_le_of_isLabeled hlabeled
    rw [Nat.min_eq_left hle] at hs
    exact (Scheme.le_start_or_of_mem_regions (Nat.le_trans hle hmax)
      (fun limit hlimit ↦ Nat.le_of_lt (Stretch.start_lt_of_isLabeled hlabeled hlimit))
      hs).resolve_left (Nat.not_le.2 hlt)

theorem IsFoundBy.of_extends (h : IsFoundBy line root level origin s first t l)
    (he : Extends line t t') (hid : l.id < t.labels.length) (hcut : c.IsCutOf l) :
    IsFoundBy line root level origin s first t' c := by
  have horigin : t'.origin c.id = t.origin l.id := by
    rw [hcut.apply_eq id]
    exact he.origin l.id hid
  have hstarts {scheme : Scheme} {column : Nat} (h : StartsFrom line scheme column l) :
      StartsFrom line scheme column c := by
    rwa [StartsFrom, hcut.apply_eq Label.start, hcut.apply_eq Label.name]
  obtain ⟨ho, hlevel, hscheme, hs⟩ | ⟨p, hp, hle, ho, hembeds, inner, hinner, hname, hs⟩ := h
  · exact .inl ⟨horigin.trans ho, (hcut.apply_eq Label.level).trans hlevel,
      (hcut.apply_eq Label.scheme).trans hscheme, hstarts hs⟩
  · obtain ⟨p', hp', hcut'⟩ := he.cut p hp
    refine .inr ⟨p', hp', ?_, ?_, ?_, inner, ?_, ?_, ?_⟩
    · rwa [hcut'.apply_eq id]
    · rw [horigin, ho, hcut'.apply_eq id]
    · rwa [Scheme.Embeds, hcut.apply_eq Label.level, hcut.apply_eq Label.scheme,
        hcut'.apply_eq Label.level, hcut'.apply_eq Label.scheme, hcut'.apply_eq Label.name]
    · rwa [hcut.apply_eq Label.level]
    · rw [hname, hcut.apply_eq Label.scheme]
    · rw [hcut'.apply_eq Label.start]
      exact hstarts hs

theorem IsRun.isFoundBy (h : IsRun line inherited level origin s t t')
    (ht : IsProper line inherited t) (hs : s.scheme ∈ root.onLevel level) :
    ∀ c ∈ t'.labels, t.labels.length ≤ c.id →
      IsFoundBy line root level origin s t.labels.length t' c := by
  refine fun c hc hle ↦ IsRun.forall_added (P := fun level origin s first t c ↦
    s.scheme ∈ root.onLevel level → IsFoundBy line root level origin s first t c)
    (fun h he hid hcut hs ↦ (h hs).of_extends he hid hcut) ?_ ?_ h ht c hc hle hs
  · intro level origin s t l ht _ hl hle hfound _
    exact .inl ⟨if_neg (Nat.not_lt.2 hle), hfound.level_eq, hfound.scheme_eq,
      startsFrom_of_mem_add ht hl hle⟩
  · intro level origin s l e t first first' p c hfound htext hp hcut _ hle hle' hc hs
    have hscheme := Scheme.subScheme?_mem_onLevel hs htext.subScheme?_eq
    obtain ⟨ho, hlevel, hscheme', hstarts⟩ | ⟨q, hq, hle'', hq'⟩ := hc hscheme
    · refine .inr ⟨p, hp, ?_, ?_, ⟨?_, s.scheme, ?_, ?_, ?_⟩, e.2.scheme, ?_, hscheme'.symm, ?_⟩
      · rwa [hcut.apply_eq id]
      · rw [ho, hcut.apply_eq id, htext.id_eq]
      · rw [hcut.apply_eq Label.level, hfound.level_eq, hlevel]
      · rwa [hcut.apply_eq Label.level, hfound.level_eq]
      · rw [hcut.apply_eq Label.scheme, hfound.scheme_eq]
      · rw [hcut.apply_eq Label.name, htext.subScheme?_eq, hscheme']
        rfl
      · rwa [hlevel]
      · rwa [hcut.apply_eq Label.start, ← htext.start_eq]
    · exact .inr ⟨q, hq, Nat.le_trans hle' hle'', hq'⟩

end Label.Trace

theorem Scheme.isFoundBy_trace (s : Scheme) (line : Text) (inherited : Continuations)
    (maxNesting : Nat) {c : Label} (hc : c ∈ (s.trace line inherited maxNesting).labels) :
    Label.Trace.IsFoundBy line s 0 none ⟨0, .lineEnd, s⟩ 0 (s.trace line inherited maxNesting) c :=
  (s.isRun_trace line inherited maxNesting).isFoundBy (Label.Trace.isProper_nil line inherited)
    (List.mem_singleton_self s) c hc (Nat.zero_le _)

end Highlighter
