import Highlighter.Containment

/-!
The labels of a line in their order, each inside those before it that hold it.
-/

namespace Highlighter

instance : Std.TransCmp Stop.compare where
  eq_swap := by
    intro a b
    cases a with
    | column m =>
      cases b with
      | column n => exact (Nat.compare_swap n m).symm
      | lineEnd => rfl
    | lineEnd =>
      cases b with
      | column n => rfl
      | lineEnd => rfl
  isLE_trans := by
    intro a b c hab hbc
    cases a with
    | column m =>
      cases c with
      | column k =>
        cases b with
        | column n => exact Std.TransOrd.isLE_trans hab hbc
        | lineEnd => cases hbc
      | lineEnd => rfl
    | lineEnd =>
      cases b with
      | column n => cases hab
      | lineEnd => exact hbc

namespace Label

/-- Stops from the end of the line to the left. -/
def longest (a b : Label) : Ordering := Stop.compare b.stop a.stop

instance : Std.TransCmp longest where
  eq_swap := by
    intro a b
    show Stop.compare b.stop a.stop = (Stop.compare a.stop b.stop).swap
    exact Std.OrientedCmp.eq_swap
  isLE_trans := by
    intro a b c (hab : (Stop.compare b.stop a.stop).isLE) (hbc : (Stop.compare c.stop b.stop).isLE)
    show (Stop.compare c.stop a.stop).isLE
    exact Std.TransCmp.isLE_trans hbc hab

instance : Std.TransCmp placing :=
  inferInstanceAs (Std.TransCmp (compareLex (compareOn start) (compareLex longest
    (compareLex (compareOn level) (compareLex (compareOn order) (compareOn id))))))

variable {labels sources placed before rest : List Label} {l c : Label} {length k : Nat}

theorem placing_total (l c : Label) : ((placing l c).isLE || (placing c l).isLE) = true := by
  rw [Bool.or_eq_true]
  by_cases h : (placing l c).isLE = true
  · exact .inl h
  · exact .inr (by rw [Std.OrientedCmp.lt_of_not_isLE h]; rfl)

theorem start_le_of_placing (h : (placing l c).isLE = true) : l.start ≤ c.start :=
  Nat.isLE_compare.1 (Ordering.isLE_then_iff_and.1 h).1

/-- Labels that are placed one after the other, and what they were before. -/
inductive Placed (length : Nat) : List Label → List Label → Prop
  | nil : Placed length [] []
  | snoc {sources placed : List Label} (h : Placed length sources placed) (l : Label) :
      Placed length (sources ++ [l]) (placed ++ [placeAfter length placed l])

theorem mem_containers_placeAfter : k ∈ (placeAfter length before l).containers ↔
    ∃ c ∈ before, c.holds length l = true ∧ c.id = k := by
  simp only [placeAfter, Ascending.mem_ofList, List.mem_map, List.mem_filter, and_assoc]

namespace Placed

theorem foldl (h : Placed length sources placed) (rest : List Label) :
    Placed length (sources ++ rest)
      (rest.foldl (fun placed l ↦ placed ++ [placeAfter length placed l]) placed) := by
  induction rest generalizing sources placed with
  | nil => rwa [List.append_nil]
  | cons l rest ih =>
    have := ih (h.snoc l)
    rwa [List.append_assoc] at this

theorem map_eq {α : Type} {f : Label → α} (h : Placed length sources placed)
    (hf : ∀ before l, f (placeAfter length before l) = f l) : placed.map f = sources.map f := by
  induction h with
  | nil => rfl
  | snoc h l ih => rw [List.map_append, List.map_append, ih, List.map_singleton, hf]; rfl

theorem exists_source (h : Placed length sources placed) (hl : l ∈ placed) :
    ∃ source ∈ sources, ∃ before, (∀ c ∈ before, c ∈ placed) ∧
      l = placeAfter length before source := by
  induction h with
  | nil => cases hl
  | @snoc sources placed h source ih =>
    obtain hl | hl := List.mem_append.1 hl
    · obtain ⟨s, hs, before, hb, he⟩ := ih hl
      exact ⟨s, List.mem_append_left _ hs, before, fun c hc ↦ List.mem_append_left _ (hb c hc), he⟩
    · exact ⟨source, List.mem_append_right _ (List.mem_singleton_self source), placed,
        fun c hc ↦ List.mem_append_left _ hc, List.mem_singleton.1 hl⟩

theorem pairwise_containers (h : Placed length sources placed) :
    placed.Pairwise fun c l ↦ c.holds length l = true → c.id ∈ l.containers := by
  induction h with
  | nil => exact .nil
  | snoc h l ih =>
    refine List.pairwise_append.2 ⟨ih, List.pairwise_singleton _ _, fun c hc l' hl' ↦ ?_⟩
    rw [List.mem_singleton.1 hl']
    exact fun hh ↦ mem_containers_placeAfter.2 ⟨c, hc, hh, rfl⟩

end Placed

theorem placed_place (labels : List Label) (length : Nat) :
    ∃ sources, sources.Perm labels ∧
      sources.Pairwise (fun a b ↦ (placing a b).isLE = true) ∧
      Placed length sources (place labels length) := by
  refine ⟨_, Sorting.perm_sort _ labels, ?_, Placed.nil.foldl _⟩
  exact Sorting.pairwise_sort _ (fun _ _ _ ↦ Std.TransCmp.isLE_trans) placing_total labels

/-! ### The labels of a line once they are placed -/

theorem map_place_perm {α : Type} {f : Label → α} (labels : List Label)
    (hf : ∀ before l, f (placeAfter length before l) = f l) :
    ((place labels length).map f).Perm (labels.map f) := by
  obtain ⟨sources, hs, -, hp⟩ := placed_place labels length
  rw [hp.map_eq hf]
  exact hs.map f

theorem nodup_map_id_place_iff :
    ((place labels length).map id).Nodup ↔ (labels.map id).Nodup :=
  (map_place_perm labels fun _ _ ↦ rfl).nodup_iff

theorem length_place (labels : List Label) (length : Nat) :
    (place labels length).length = labels.length := by
  have h : ((place labels length).map fun _ ↦ ()).Perm (labels.map fun _ ↦ ()) :=
    map_place_perm labels fun _ _ ↦ rfl
  simpa only [List.length_map] using h.length_eq

theorem exists_source_of_mem_place (hl : l ∈ place labels length) :
    ∃ source ∈ labels, ∃ before, (∀ c ∈ before, c ∈ place labels length) ∧
      l = placeAfter length before source := by
  obtain ⟨sources, hs, -, hp⟩ := placed_place labels length
  obtain ⟨source, hsource, h⟩ := hp.exists_source hl
  exact ⟨source, hs.mem_iff.1 hsource, h⟩

theorem pairwise_place (labels : List Label) (length : Nat) :
    (place labels length).Pairwise fun c l ↦
      c.start ≤ l.start ∧ (c.holds length l = true → c.id ∈ l.containers) := by
  obtain ⟨sources, -, ho, hp⟩ := placed_place labels length
  refine List.Pairwise.and ?_ hp.pairwise_containers
  have hstart : (place labels length).map start = sources.map start := hp.map_eq fun _ _ ↦ rfl
  rw [← List.pairwise_map, hstart, List.pairwise_map]
  exact ho.imp start_le_of_placing

theorem lt_of_holds (h : c.holds length l = true) : l.start < length := by
  simp only [holds, covers, Bool.and_eq_true, decide_eq_true_eq] at h
  exact Nat.lt_of_lt_of_le h.2.2 (c.stopIn_le length)

theorem holds_of_isOpenRegion (h : c.isOpenRegion = true) (hs : c.start ≤ l.start)
    (hl : l.start < length) : c.holds length l = true := by
  obtain ⟨hr, ho⟩ := Bool.and_eq_true_iff.1 h
  have hk : c.kind ≠ .closing := by
    intro hk
    simp [isRegion, hk] at hr
  have hstop : length ≤ c.stopIn length := by
    cases hc : c.stop with
    | column n => simp [hc, Stop.isOpen] at ho
    | lineEnd => simp only [stopIn, hc, Stop.resolve]; omega
  simp only [holds, isContainer, covers, Bool.and_eq_true, decide_eq_true_eq, bne_iff_ne]
  exact ⟨⟨hk, by rw [ho]; rfl⟩, hs, by omega⟩

theorem placeAfter_of_le (h : length ≤ l.start) : placeAfter length before l =
    { l with containers := [], depth := 0, disabled := l.requires.isSome } := by
  have hb : before.filter (·.holds length l) = [] := by
    refine List.filter_eq_nil_iff.2 fun c _ hc ↦ ?_
    have := lt_of_holds hc
    omega
  simp only [placeAfter, hb]
  cases l.requires with
  | none => rfl
  | some name => rfl

end Label

end Highlighter
