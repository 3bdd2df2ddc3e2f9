import Highlighter.Proofs.Labels.Nesting

/-!
The labeling of a line once more, with the label in whose embedded text each label was found.
-/

namespace Highlighter

theorem Stop.eq_lineEnd_of_isLE {s : Stop} (h : (Stop.lineEnd.compare s).isLE = true) :
    s = .lineEnd := by
  cases s with
  | column n => cases h
  | lineEnd => rfl

namespace Scheme

variable {s : Scheme} {offset level : Nat} {stop : Stop} {t : Text} {inherited : Continuations}
variable {entry : Precedence} {l : Label}

theorem of_mem_entryWords (h : l ∈ s.entryWords offset t entry) :
    l.scheme = s.name ∧ l.stop ≠ .lineEnd := by
  obtain ⟨name, -, h⟩ := List.mem_flatMap.1 h
  split at h
  · split at h
    · cases h
    · rw [Rule.words] at h
      split at h
      · obtain ⟨w, -, rfl⟩ := List.mem_map.1 h
        exact ⟨rfl, fun h ↦ Stop.noConfusion h⟩
      · cases h
  · cases h

theorem of_mem_pairedRegions (h : l ∈ s.pairedRegions offset t inherited entry) :
    l.scheme = s.name ∧ l.isRegion = true := by
  have hscan := s.leftmostScan_pairedRegions offset t inherited entry
  by_cases hk : l.kind = .continued
  · obtain ⟨-, order, r, source, hsource, hl⟩ := hscan.resumed l h hk
    have hscheme : source.scheme = s.name := congrArg Label.Key.scheme (of_resumed? hsource).2.2
    obtain ⟨_, _, rfl⟩ := hl.exists_eq
    exact ⟨hscheme, rfl⟩
  · obtain ⟨order, r, -, start, hstart, hl, -⟩ := hscan.opened l h hk
    obtain ⟨_, _, rfl⟩ := hl.exists_eq
    obtain ⟨m, -, rfl⟩ := Rule.eq_labelAt_of_mem_openings hstart
    exact ⟨rfl, rfl⟩

/-- What is known of a label from the stretch in which it was found. -/
structure IsFound (s : Scheme) (stop : Stop) (level : Nat) (l : Label) : Prop where
  level_eq : l.level = level
  scheme_eq : l.scheme = s.name
  kind_ne : l.kind ≠ .closing
  isRegion : l.stop = .lineEnd → l.isRegion = true
  inside : ∀ limit, stop = .column limit →
    l.start ≤ limit ∧ ∃ n, l.stop = .column n ∧ n ≤ limit

theorem IsFound.stop_ne_lineEnd (h : s.IsFound stop level l) (hs : stop ≠ .lineEnd) :
    l.stop ≠ .lineEnd := by
  cases stop with
  | lineEnd => exact absurd rfl hs
  | column limit =>
    obtain ⟨-, n, hn, -⟩ := h.inside limit rfl
    rw [hn]
    exact Stop.noConfusion

theorem isFound_of_mem_regions (h : l ∈ s.regions offset stop t inherited level) :
    s.IsFound stop level l := by
  obtain ⟨l, hl, rfl⟩ := List.mem_map.1 h
  have hfound : l.scheme = s.name ∧ l.kind ≠ .closing ∧
      (l.stop = .lineEnd → l.isRegion = true) := by
    obtain ⟨entry, -, hl⟩ := List.mem_flatMap.1 hl
    obtain hl | hl := List.mem_append.1 hl
    · obtain ⟨hscheme, hstop⟩ := of_mem_entryWords hl
      refine ⟨hscheme, ?_, fun h ↦ absurd h hstop⟩
      rw [kind_of_mem_entryWords hl]
      decide
    · obtain ⟨hscheme, hregion⟩ := of_mem_pairedRegions hl
      refine ⟨hscheme, fun hk ↦ ?_, fun _ ↦ hregion⟩
      rw [Label.isRegion, hk] at hregion
      cases hregion
  obtain ⟨hscheme, hkind, hregion⟩ := hfound
  cases stop with
  | lineEnd => exact ⟨rfl, hscheme, hkind, hregion, fun _ h ↦ Stop.noConfusion h⟩
  | column limit =>
    have hstop : ∃ n, l.stop.min (.column limit) = .column n ∧ n ≤ limit := by
      cases l.stop with
      | column n => exact ⟨Nat.min n limit, rfl, Nat.min_le_right n limit⟩
      | lineEnd => exact ⟨limit, rfl, Nat.le_refl limit⟩
    obtain ⟨n, hn, hle⟩ := hstop
    refine ⟨rfl, hscheme, hkind, fun h ↦ ?_, fun limit' h ↦ ?_⟩
    · exact Stop.noConfusion (hn.symm.trans h)
    · cases h
      exact ⟨Nat.min_le_right l.start limit, n, hn, hle⟩

end Scheme

namespace Label

/-- The labels of a line in the making. The origin of a label, which is found by its id, is the id
of the one in whose embedded text it was found. -/
structure Trace where
  labels : List Label := []
  origin : Nat → Option Nat := fun _ ↦ none

/-- The text that is embedded in a label, if its id is at least `first`, with that id. -/
def embeddedText? (labels : List Label) (first : Nat) (s : Scheme) (l : Label) :
    Option (Nat × Stretch) :=
  if first ≤ l.id then
    match s.subScheme? l.name with
    | none => none
    | some sub =>
      let active := activeIds labels
      if active.contains l.id && !l.isShadowed labels active s then
        some (l.id, ⟨l.start, l.stop, sub⟩)
      else none
  else none

def embeddedFrom (labels : List Label) (first : Nat) (s : Scheme) : List (Nat × Stretch) :=
  labels.filterMap (embeddedText? labels first s)

theorem map_embeddedFrom (labels : List Label) (first : Nat) (s : Scheme) :
    (embeddedFrom labels first s).map Prod.snd = embedded labels first s := by
  rw [embeddedFrom, embedded, List.map_filterMap]
  refine congrArg (List.filterMap · labels) (funext fun l ↦ ?_)
  rw [embeddedText?]
  by_cases hfirst : first ≤ l.id
  · rw [if_pos hfirst, if_pos hfirst]
    cases s.subScheme? l.name with
    | none => rfl
    | some sub => exact (apply_ite (Option.map Prod.snd) _ _ _).trans rfl
  · rw [if_neg hfirst, if_neg hfirst]
    rfl

/-- Whether a stretch with the id of a label is the text embedded in that label. -/
structure IsTextOf (s : Scheme) (l : Label) (e : Nat × Stretch) : Prop where
  id_eq : e.1 = l.id
  start_eq : e.2.start = l.start
  stop_eq : e.2.stop = l.stop
  subScheme?_eq : s.subScheme? l.name = some e.2.scheme

theorem start_lt_of_isLabeled {line : Text} {s : Stretch}
    (h : s.isLabeled line.length = true) (hline : line ≠ []) :
    s.start < line.length := by
  have hpos := List.length_pos_iff.2 hline
  rw [Stretch.isLabeled, Bool.or_eq_true, decide_eq_true_eq] at h
  obtain h | h := h
  · refine Nat.lt_of_lt_of_le h ?_
    cases s.stop with
    | column n => exact Nat.min_le_right n _
    | lineEnd => exact Nat.le_refl _
  · rw [Bool.and_eq_true, beq_iff_eq] at h
    omega

theorem IsTextOf.start_lt {s : Scheme} {l : Label} {e : Nat × Stretch} {line : Text}
    (h : IsTextOf s l e) (hlabeled : e.2.isLabeled line.length = true) (hline : line ≠ []) :
    l.start < line.length :=
  h.start_eq ▸ start_lt_of_isLabeled hlabeled hline

theorem embeddedText?_eq_some {labels : List Label} {first : Nat} {s : Scheme} {l : Label}
    {e : Nat × Stretch} (h : embeddedText? labels first s l = some e) :
    first ≤ l.id ∧ IsTextOf s l e ∧ l.id ∈ activeIds labels := by
  rw [embeddedText?] at h
  split at h
  · next hfirst =>
    split at h
    · cases h
    · next hsub =>
      dsimp only at h
      split at h
      · next hactive =>
        cases h
        rw [Bool.and_eq_true, List.contains_iff_mem] at hactive
        exact ⟨hfirst, ⟨rfl, rfl, rfl, hsub⟩, hactive.1⟩
      · cases h
  · cases h

theorem mem_embeddedFrom {labels : List Label} {first : Nat} {s : Scheme} {e : Nat × Stretch}
    (h : e ∈ embeddedFrom labels first s) :
    ∃ l ∈ labels, first ≤ l.id ∧ IsTextOf s l e ∧ l.id ∈ activeIds labels := by
  obtain ⟨l, hl, h⟩ := List.mem_filterMap.1 h
  exact ⟨l, hl, embeddedText?_eq_some h⟩

/-- Texts are embedded in the order of the labels. -/
theorem pairwise_embeddedFrom {labels : List Label} {R : Label → Label → Prop}
    (h : labels.Pairwise R) (first : Nat) (s : Scheme) :
    (embeddedFrom labels first s).Pairwise fun e e' ↦ ∃ l ∈ labels, ∃ l' ∈ labels,
      first ≤ l.id ∧ IsTextOf s l e ∧ first ≤ l'.id ∧ IsTextOf s l' e' ∧ R l l' := by
  refine List.pairwise_filterMap.2 (h.imp_of_mem fun hl hl' hR _ he _ he' ↦ ?_)
  obtain ⟨hfirst, htext, -⟩ := embeddedText?_eq_some he
  obtain ⟨hfirst', htext', -⟩ := embeddedText?_eq_some he'
  exact ⟨_, hl, _, hl', hfirst, htext, hfirst', htext', hR⟩

theorem subset_foldl_placeAfter (length : Nat) (rest : List Label) {placed : List Label}
    {c : Label} (hc : c ∈ placed) :
    c ∈ rest.foldl (fun placed l ↦ placed ++ [placeAfter length placed l]) placed := by
  induction rest generalizing placed with
  | nil => exact hc
  | cons l rest ih => exact ih (List.mem_append_left _ hc)

theorem exists_isCutOf_of_mem {labels : List Label} {l : Label} (hl : l ∈ labels) (length : Nat) :
    ∃ c ∈ place labels length, c.IsCutOf l ∧ (length ≤ l.start → c.stop = l.stop) := by
  obtain ⟨before, after, he⟩ :=
    List.append_of_mem ((Sorting.perm_sort (fun a b ↦ (placing a b).isLE) labels).mem_iff.2 hl)
  rw [place, he, List.foldl_append, List.foldl_cons]
  exact ⟨_, subset_foldl_placeAfter length after
    (List.mem_append_right _ (List.mem_singleton_self _)), isCutOf_placeAfter length _ l,
    fun hle ↦ (congrArg stop (placeAfter_of_le hle)).trans rfl⟩

theorem exists_of_mem_activeIds {labels : List Label} {k : Nat} (h : k ∈ activeIds labels) :
    ∃ l ∈ labels, l.id = k ∧ l.disabled = false := by
  suffices hall : ∀ i ∈ activeIds labels, ∃ l ∈ labels, l.id = i ∧ l.disabled = false from
    hall k h
  refine List.foldlRecOn (motive := fun active ↦ ∀ i ∈ active, ∃ l ∈ labels, l.id = i ∧
    l.disabled = false) labels _ (fun _ hi ↦ absurd hi List.not_mem_nil)
    fun active ih l hl i hi ↦ ?_
  split at hi
  · next hactive =>
    rw [Bool.and_eq_true, Bool.not_eq_true'] at hactive
    obtain hi | hi := List.mem_append.1 hi
    · exact ih i hi
    · exact ⟨l, hl, (List.mem_singleton.1 hi).symm, hactive.1⟩
  · exact ih i hi

theorem IsCutOf.stop_eq_lineEnd {l source : Label} (h : l.IsCutOf source)
    (hl : l.stop = .lineEnd) : source.stop = .lineEnd :=
  Stop.eq_lineEnd_of_isLE (hl ▸ h.2)

theorem IsCutOf.stop_ne_lineEnd {l source : Label} (h : l.IsCutOf source)
    (hs : source.stop ≠ .lineEnd) : l.stop ≠ .lineEnd := fun hl ↦ hs (h.stop_eq_lineEnd hl)

theorem IsCutOf.stop_eq_column {l source : Label} {n : Nat} (h : l.IsCutOf source)
    (hs : source.stop = .column n) : ∃ m, l.stop = .column m ∧ m ≤ n := by
  have hle := h.2
  rw [hs] at hle
  cases hl : l.stop with
  | lineEnd =>
    rw [hl] at hle
    cases hle
  | column m =>
    rw [hl] at hle
    exact ⟨m, rfl, Nat.isLE_compare.1 hle⟩

/-- Cutting leaves the rest of a label as it is. -/
theorem IsCutOf.apply_eq {l source : Label} {α : Type} (h : l.IsCutOf source) (f : Label → α)
    (hf : ∀ (l : Label) (stop : Stop) (containers : List Nat) (depth : Nat) (disabled : Bool),
      f { l with stop, containers, depth, disabled } = f l := by intros; rfl) :
    f l = f source := by
  rw [h.1]
  exact hf source _ _ _ _

namespace Trace

variable {line : Text} {inherited : Continuations} {level nesting : Nat} {origin : Option Nat}
variable {s : Stretch} {t : Trace} {l : Label}

def add (t : Trace) (origin : Option Nat) (found : List Label) (length : Nat) : Trace where
  labels := place (t.labels ++ number t.labels.length found) length
  origin i := if i < t.labels.length then t.origin i else origin

/-- The labels of a stretch, as they are found in the line. -/
def foundIn (line : Text) (inherited : Continuations) (level : Nat) (s : Stretch) : List Label :=
  if s.isLabeled line.length then
    s.scheme.regions (min s.start line.length) s.stop (s.textIn line) inherited level
  else []

/-- `Label.addStretch` with the origins of the labels. -/
def addStretch (line : Text) (inherited : Continuations) (nesting level : Nat)
    (origin : Option Nat) (s : Stretch) (t : Trace) : Trace :=
  if foundIn line inherited level s = [] then t
  else
    let placed := t.add origin (foundIn line inherited level s) line.length
    match nesting with
    | 0 => placed
    | n + 1 =>
      (embeddedFrom placed.labels t.labels.length s.scheme).foldl
        (fun t e ↦ addStretch line inherited n (level + 1) (some e.1) e.2 t) placed

theorem labels_addStretch (line : Text) (inherited : Continuations) (nesting level : Nat)
    (origin : Option Nat) (s : Stretch) (t : Trace) :
    (t.addStretch line inherited nesting level origin s).labels =
      Label.addStretch line inherited nesting level s t.labels := by
  induction nesting generalizing level origin s t with
  | zero =>
    rw [addStretch, Label.addStretch, foundIn]
    by_cases hs : s.isLabeled line.length = true
    · rw [if_pos hs, if_pos hs]
      cases s.scheme.regions (min s.start line.length) s.stop (s.textIn line) inherited level with
      | nil => rfl
      | cons l found => rfl
    · rw [if_neg hs, if_neg hs]
      rfl
  | succ n ih =>
    rw [addStretch, Label.addStretch, foundIn]
    by_cases hs : s.isLabeled line.length = true
    · rw [if_pos hs, if_pos hs]
      cases s.scheme.regions (min s.start line.length) s.stop (s.textIn line) inherited level with
      | nil => rfl
      | cons l found =>
        rw [if_neg (List.cons_ne_nil l found)]
        dsimp only
        rw [← map_embeddedFrom, List.foldl_map]
        exact (List.foldl_hom labels fun u e ↦ (ih (level + 1) (some e.1) e.2 u).symm).symm
    · rw [if_neg hs, if_neg hs]
      rfl

theorem id_of_mem_number {first : Nat} {found : List Label} (h : l ∈ number first found) :
    first ≤ l.id := by
  have hid := List.mem_map_of_mem (f := id) h
  rw [map_id_number, List.mem_range'_1] at hid
  exact hid.1

/-- A label is one from before, or one of those that were found now. -/
theorem exists_source_of_mem_add {found : List Label} {length : Nat}
    (h : l ∈ (t.add origin found length).labels) :
    (∃ source ∈ t.labels, l.IsCutOf source) ∨
      t.labels.length ≤ l.id ∧ ∃ source ∈ found, l.IsCutOf { source with id := l.id } := by
  obtain ⟨source, hs, hcut⟩ := (rearranges_place _ length).cut l h
  obtain hs | hs := List.mem_append.1 hs
  · exact .inl ⟨source, hs, hcut⟩
  · have hid := id_of_mem_number hs
    obtain ⟨f, hf, i, rfl⟩ := exists_of_mem_number hs
    have he : l.id = i := hcut.apply_eq id
    exact .inr ⟨he ▸ hid, f, hf, he ▸ hcut⟩

theorem length_add (t : Trace) (origin : Option Nat) (found : List Label) (length : Nat) :
    (t.add origin found length).labels.length = t.labels.length + found.length := by
  rw [add, length_place, List.length_append, length_number]

theorem IsFound.of_isCutOf {scheme : Scheme} {stop : Stop} {source : Label} {i : Nat}
    (h : scheme.IsFound stop level source) (hcut : l.IsCutOf { source with id := i }) :
    scheme.IsFound stop level l := by
  refine ⟨?_, ?_, ?_, fun hl ↦ ?_, fun limit hstop ↦ ?_⟩
  · rw [hcut.apply_eq Label.level]
    exact h.level_eq
  · rw [hcut.apply_eq Label.scheme]
    exact h.scheme_eq
  · rw [hcut.apply_eq Label.kind]
    exact h.kind_ne
  · rw [hcut.apply_eq Label.isRegion]
    exact h.isRegion (hcut.stop_eq_lineEnd hl)
  · obtain ⟨hstart, n, hn, hle⟩ := h.inside limit hstop
    obtain ⟨m, hm, hle'⟩ := hcut.stop_eq_column (n := n) hn
    rw [hcut.apply_eq Label.start]
    exact ⟨hstart, m, hm, Nat.le_trans hle' hle⟩

theorem isFound_of_mem_foundIn (h : l ∈ foundIn line inherited level s) :
    s.scheme.IsFound s.stop level l := by
  rw [foundIn] at h
  split at h
  · exact Scheme.isFound_of_mem_regions h
  · cases h

theorem isLabeled_of_foundIn_ne (h : foundIn line inherited level s ≠ []) :
    s.isLabeled line.length = true := by
  rw [foundIn] at h
  split at h
  · assumption
  · exact absurd rfl h

end Trace

end Label

/-- The labels of a line with their origins. -/
def Scheme.trace (s : Scheme) (line : Text) (inherited : Continuations) (maxNesting : Nat) :
    Label.Trace :=
  Label.Trace.addStretch line inherited maxNesting 0 none ⟨0, .lineEnd, s⟩ {}

theorem Scheme.labels_trace (s : Scheme) (line : Text) (inherited : Continuations)
    (maxNesting : Nat) :
    (s.trace line inherited maxNesting).labels = s.labelLine line inherited maxNesting :=
  Label.Trace.labels_addStretch line inherited maxNesting 0 none _ {}

end Highlighter
