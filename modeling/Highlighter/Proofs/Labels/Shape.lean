import Highlighter.Proofs.Labels.Worklist

/-!
What the labels of a line look like, whatever the scheme finds in it: how they are numbered, how
deep they are nested, and that none of them stops before it starts.
-/

namespace Highlighter

/-! ### How deep schemes are embedded -/

namespace Scheme

mutual

/-- How many schemes are embedded one in the other below a scheme. -/
def height : Scheme → Nat
  | ⟨_, _, _, _, subSchemes⟩ => heightOfAll subSchemes

def heightOfAll : List (String × Scheme) → Nat
  | [] => 0
  | e :: rest => max (heightOfEntry e + 1) (heightOfAll rest)

def heightOfEntry : String × Scheme → Nat
  | (_, s) => height s

end

theorem heightOfEntry_lt_heightOfAll {e : String × Scheme} {l : List (String × Scheme)}
    (h : e ∈ l) : heightOfEntry e < heightOfAll l := by
  induction l with
  | nil => cases h
  | cons f l ih =>
    rw [heightOfAll]
    obtain rfl | h := List.mem_cons.1 h
    · exact Nat.le_max_left _ _
    · exact Nat.lt_of_lt_of_le (ih h) (Nat.le_max_right _ _)

theorem height_lt_of_mem {s : Scheme} {e : String × Scheme} (h : e ∈ s.subSchemes) :
    e.2.height < s.height := by
  obtain ⟨_, inner⟩ := e
  cases s
  have hlt := heightOfEntry_lt_heightOfAll h
  rwa [heightOfEntry] at hlt

theorem add_height_le_of_mem_onLevel {root s : Scheme} {k : Nat} (h : s ∈ root.onLevel k) :
    k + s.height ≤ root.height := by
  induction k generalizing s with
  | zero =>
    obtain rfl := List.mem_singleton.1 h
    exact Nat.le_of_eq (Nat.zero_add _)
  | succ k ih =>
    obtain ⟨outer, houter, h⟩ := List.mem_flatMap.1 h
    obtain ⟨e, he, rfl⟩ := List.mem_map.1 h
    have hlt := height_lt_of_mem he
    have hle := ih houter
    omega

end Scheme

namespace Label

variable {line : Text} {inherited : Continuations} {labels before : List Label} {l source : Label}
variable {length level nesting n : Nat} {s : Stretch}

/-! ### Levels -/

theorem level_le_of_mem_addStretch (hlevel : level + nesting ≤ n)
    (h : ∀ l ∈ labels, l.level ≤ n) :
    ∀ l ∈ addStretch line inherited nesting level s labels, l.level ≤ n := by
  refine addStretch_induction_within (P := fun labels ↦ ∀ l ∈ labels, l.level ≤ n)
    (fun labels s level _ hle h l hl ↦ ?_) (Nat.zero_le level) hlevel s h
  obtain ⟨source, hs, before, -, rfl⟩ := exists_source_of_mem_place hl
  obtain hs | hs := List.mem_append.1 hs
  · exact h source hs
  · obtain ⟨found, hfound, i, rfl⟩ := exists_of_mem_number hs
    exact Nat.le_trans (Nat.le_of_eq (Scheme.isFound_of_mem_regions hfound).level_eq) hle

/-! ### Starts and stops -/

/-- Whether a label does not stop before it starts. -/
def IsOrdered (l : Label) : Prop := ((Stop.column l.start).compare l.stop).isLE = true

theorem isOrdered_iff : l.IsOrdered ↔ ∀ n, l.stop = .column n → l.start ≤ n := by
  rw [IsOrdered]
  cases l.stop with
  | lineEnd => simp [Stop.compare]
  | column n => simp [Stop.compare, Nat.isLE_compare]

/-- What contains a label stops after the start of that label. -/
theorem Contains.isLE_compare {c : Label} (h : Contains length c l) :
    ((Stop.column l.start).compare c.stop).isLE = true := by
  have hstart := h.start_le
  have hlt := h.lt_stopIn
  rw [stopIn] at hlt
  cases hc : c.stop with
  | lineEnd => rfl
  | column n =>
    rw [hc] at hlt
    refine Nat.isLE_compare.2 ?_
    simp only [Stop.resolve] at hlt
    omega

theorem IsOrdered.placeAfter (h : l.IsOrdered) (length : Nat) (before : List Label) :
    (placeAfter length before l).IsOrdered :=
  isLE_compare_foldl_min.2 ⟨h, fun _ hc ↦ (holds_iff.1 (List.mem_filter.1 hc).2).isLE_compare⟩

theorem IsOrdered.clampTo (h : l.IsOrdered) (stop : Stop) : (l.clampTo stop).IsOrdered := by
  cases stop with
  | lineEnd => exact h
  | column limit =>
    rw [isOrdered_iff] at h ⊢
    intro n hn
    cases hstop : l.stop with
    | lineEnd =>
      simp only [Label.clampTo, hstop, Stop.min, Stop.column.injEq] at hn ⊢
      omega
    | column m =>
      have := h m hstop
      simp only [Label.clampTo, hstop, Stop.min, Stop.column.injEq] at hn ⊢
      rw [← hn]
      exact Nat.le_min.2 ⟨Nat.le_trans (Nat.min_le_left _ _) this, Nat.min_le_right _ _⟩

theorem ClosedFrom.isOrdered {region : Label} {from_ : Nat} {closings : List Label}
    (h : l.ClosedFrom from_ closings region) : region.IsOrdered := by
  cases h with
  | column => exact isOrdered_iff.2 fun n hn ↦ Stop.column.inj hn ▸ Nat.le_max_right _ _
  | lineEnd => rfl

end Label

namespace Scheme

open Label

variable {s : Scheme} {offset level : Nat} {stop : Stop} {t : Text} {inherited : Continuations}
variable {entry : Precedence} {l : Label}

theorem isOrdered_of_mem_entryWords (h : l ∈ s.entryWords offset t entry) : l.IsOrdered := by
  obtain ⟨name, -, h⟩ := List.mem_flatMap.1 h
  split at h
  · split at h
    · cases h
    · rw [Rule.words] at h
      split at h
      · obtain ⟨w, -, rfl⟩ := List.mem_map.1 h
        exact isOrdered_iff.2 fun n hn ↦ Stop.column.inj hn ▸ Nat.le_max_right _ _
      · cases h
  · cases h

theorem isOrdered_of_mem_pairedRegions (h : l ∈ s.pairedRegions offset t inherited entry) :
    l.IsOrdered := by
  have hscan := s.leftmostScan_pairedRegions offset t inherited entry
  by_cases hk : l.kind = .continued
  · obtain ⟨-, order, r, source, -, hl⟩ := hscan.resumed l h hk
    exact hl.isOrdered
  · obtain ⟨order, r, -, start, -, hl, -⟩ := hscan.opened l h hk
    exact hl.isOrdered

theorem isOrdered_of_mem_regions (h : l ∈ s.regions offset stop t inherited level) :
    l.IsOrdered := by
  obtain ⟨l, hl, rfl⟩ := List.mem_map.1 h
  have hordered : l.IsOrdered := by
    obtain ⟨entry, -, hl⟩ := List.mem_flatMap.1 hl
    obtain hl | hl := List.mem_append.1 hl
    · exact isOrdered_of_mem_entryWords hl
    · exact isOrdered_of_mem_pairedRegions hl
  exact IsOrdered.clampTo (l := { l with level }) hordered stop

theorem isOrdered_of_mem_labelLine (s : Scheme) (line : Text) (inherited : Continuations)
    (maxNesting : Nat) : ∀ l ∈ s.labelLine line inherited maxNesting, l.IsOrdered := by
  refine addStretch_induction (P := fun labels ↦ ∀ l ∈ labels, l.IsOrdered)
    (fun labels stretch level h l hl ↦ ?_) maxNesting 0 _ (fun _ hl ↦ absurd hl List.not_mem_nil)
  obtain ⟨source, hs, before, -, rfl⟩ := exists_source_of_mem_place hl
  refine IsOrdered.placeAfter ?_ _ _
  obtain hs | hs := List.mem_append.1 hs
  · exact h source hs
  · obtain ⟨found, hfound, i, rfl⟩ := exists_of_mem_number hs
    have hordered : found.IsOrdered := isOrdered_of_mem_regions hfound
    exact hordered

theorem level_le_height {maxNesting : Nat} {line : Text}
    (hl : l ∈ s.labelLine line inherited maxNesting) : l.level ≤ s.height := by
  rw [← s.labels_trace] at hl
  obtain ⟨-, hlevel, -, -⟩ | ⟨-, -, -, -, -, inner, hinner, -, -⟩ :=
    s.isFoundBy_trace line inherited maxNesting hl
  · exact hlevel ▸ Nat.zero_le _
  · exact Nat.le_trans (Nat.le_add_right _ _) (add_height_le_of_mem_onLevel hinner)

/-- Labeling a line comes to an end, with one list of labels only. They are numbered without gap, no
deeper than is allowed and than schemes are embedded in each other, and none is a closing delimiter,
an open word, or stops before it starts. -/
theorem labelLine_finishes (s : Scheme) (line : Text) (inherited : Continuations)
    (maxNesting : Nat) :
    let labels := s.labelLine line inherited maxNesting
    (∀ result, Worklist.Finishes line inherited maxNesting ⟨[(0, ⟨0, .lineEnd, s⟩)], []⟩ result ↔
      result = labels) ∧
    (labels.map Label.id).Perm (List.range labels.length) ∧
    ∀ l ∈ labels, l.level ≤ maxNesting ∧ l.level ≤ s.height ∧ l.kind ≠ .closing ∧
      (l.kind = .single → l.stop ≠ .lineEnd) ∧ ∀ n, l.stop = .column n → l.start ≤ n := by
  intro labels
  refine ⟨fun result ↦ Worklist.finishes_iff s line inherited maxNesting,
    (s.ofLine_labelLine line inherited maxNesting).ids, fun l hl ↦ ?_⟩
  have hproper := s.isProper_trace line inherited maxNesting
  have hl' : l ∈ (s.trace line inherited maxNesting).labels := s.labels_trace .. ▸ hl
  refine ⟨?_, level_le_height hl, hproper.kind_ne l hl', fun hk hopen ↦ ?_,
    isOrdered_iff.1 (isOrdered_of_mem_labelLine s line inherited maxNesting l hl)⟩
  · exact level_le_of_mem_addStretch (Nat.le_of_eq (Nat.zero_add maxNesting))
      (fun _ hl ↦ absurd hl List.not_mem_nil) l hl
  · have hregion := hproper.isRegion l hl' hopen
    rw [isRegion, hk] at hregion
    cases hregion

end Scheme

end Highlighter
