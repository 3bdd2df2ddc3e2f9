import Highlighter.Occurrences

/-!
Where the delimiters of a rule lie in a text: none is empty, and each starts after the one before
it.
-/

namespace Highlighter

namespace Regex

variable {r : Regex} {i skip : Nat} {before : Option Char} {t : Text} {m : Nat × Nat}

theorem occurrencesFrom_bounds (h : m ∈ r.occurrencesFrom i before skip t) :
    i + skip ≤ m.1 ∧ m.1 < m.2 := by
  induction t generalizing i before skip with
  | nil => cases h
  | cons c t ih =>
    rw [occurrencesFrom.eq_def] at h
    cases skip with
    | succ n =>
      obtain ⟨h₁, h₂⟩ := ih h
      exact ⟨by omega, h₂⟩
    | zero =>
      simp only at h
      split at h
      · next n _ =>
        obtain rfl | h := List.mem_cons.1 h
        · exact ⟨Nat.le_refl i, by omega⟩
        · obtain ⟨h₁, h₂⟩ := ih h
          exact ⟨by omega, h₂⟩
      · obtain ⟨h₁, h₂⟩ := ih h
        exact ⟨by omega, h₂⟩

theorem pairwise_occurrencesFrom :
    (r.occurrencesFrom i before skip t).Pairwise fun a b ↦ a.2 ≤ b.1 := by
  induction t generalizing i before skip with
  | nil => exact .nil
  | cons c t ih =>
    rw [occurrencesFrom.eq_def]
    cases skip with
    | succ n => exact ih
    | zero =>
      simp only
      split
      · next n _ =>
        refine List.pairwise_cons.2 ⟨fun m hm ↦ ?_, ih⟩
        have := (occurrencesFrom_bounds hm).1
        show i + n + 1 ≤ m.1
        omega
      · exact ih

end Regex

/-- Elements that a function tells apart in a list are those that it tells apart at all. -/
theorem eq_of_pairwise_ne {α β : Type} {f : α → β} {l : List α} {a b : α}
    (h : l.Pairwise fun a b ↦ f a ≠ f b) (ha : a ∈ l) (hb : b ∈ l) (he : f a = f b) : a = b := by
  have hne : l.Pairwise fun a b ↦ f a = f b → a = b := h.imp fun hab he ↦ absurd he hab
  have hne' : l.Pairwise fun a b ↦ f b = f a → b = a := h.imp fun hab he ↦ absurd he.symm hab
  exact hne.forall_of_forall_of_flip (fun _ _ _ ↦ rfl) hne' ha hb he

namespace Label

/-- Nonempty markers from a column on, each after the end of the one before it. -/
structure InOrder (offset : Nat) (markers : List Label) : Prop where
  from_le : ∀ l ∈ markers, offset ≤ l.matched.1
  nonempty : ∀ l ∈ markers, l.matched.1 < l.matched.2
  pairwise : markers.Pairwise fun a b ↦ a.matched.2 ≤ b.matched.1

namespace InOrder

variable {offset cursor : Nat} {markers : List Label} {l l' : Label}

theorem nil (offset : Nat) : InOrder offset [] :=
  ⟨by simp, by simp, .nil⟩

theorem map {ranges : List (Nat × Nat)} {f : Nat × Nat → Label} (hf : ∀ m, (f m).matched = m)
    (hb : ∀ m ∈ ranges, offset ≤ m.1 ∧ m.1 < m.2)
    (hp : ranges.Pairwise fun a b ↦ a.2 ≤ b.1) : InOrder offset (ranges.map f) := by
  refine ⟨fun l hl ↦ ?_, fun l hl ↦ ?_, List.pairwise_map.2 (hp.imp fun h ↦ by rwa [hf, hf])⟩
  · obtain ⟨m, hm, rfl⟩ := List.mem_map.1 hl
    rw [hf]
    exact (hb m hm).1
  · obtain ⟨m, hm, rfl⟩ := List.mem_map.1 hl
    rw [hf]
    exact (hb m hm).2

/-- The first marker found at or after a column is the leftmost one there. -/
theorem le_of_find? (h : InOrder offset markers)
    (hl : markers.find? (fun l ↦ decide (cursor ≤ l.matched.1)) = some l) (hl' : l' ∈ markers)
    (hc : cursor ≤ l'.matched.1) : l.matched.1 ≤ l'.matched.1 := by
  obtain ⟨-, before, rest, rfl, hb⟩ := List.find?_eq_some_iff_append.1 hl
  obtain hm | hm := List.mem_append.1 hl'
  · have := hb l' hm
    simp only [Bool.not_eq_true', decide_eq_false_iff_not] at this
    exact absurd hc this
  · obtain rfl | hm := List.mem_cons.1 hm
    · exact Nat.le_refl _
    · have hp := (List.pairwise_cons.1 (List.pairwise_append.1 h.pairwise).2.1).1 l' hm
      have hlt := h.nonempty l (List.mem_append_right _ List.mem_cons_self)
      omega

theorem eq_of_matched (h : InOrder offset markers) (hl : l ∈ markers) (hl' : l' ∈ markers)
    (he : l.matched.1 = l'.matched.1) : l = l' := by
  have hne : markers.Pairwise fun a b ↦ a.matched.1 ≠ b.matched.1 := by
    refine h.pairwise.imp_of_mem fun {a b} ha _ hab ↦ ?_
    have := h.nonempty a ha
    omega
  exact eq_of_pairwise_ne hne hl hl' he

end InOrder

end Label

namespace Pattern

variable {p : Pattern} {offset : Nat} {t : Text}

theorem delimiters_bounds {m : Nat × Nat} (h : m ∈ p.delimiters offset t) :
    offset ≤ m.1 ∧ m.1 < m.2 := by
  obtain ⟨m', hm, rfl⟩ := List.mem_map.1 h
  have := Regex.occurrencesFrom_bounds (List.mem_filter.1 hm).1
  exact ⟨Nat.le_add_left _ _, by simp only; omega⟩

theorem pairwise_delimiters : (p.delimiters offset t).Pairwise fun a b ↦ a.2 ≤ b.1 := by
  refine List.pairwise_map.2 ((Regex.pairwise_occurrencesFrom.filter _).imp fun h ↦ ?_)
  exact Nat.add_le_add_right h offset

end Pattern

namespace Rule

variable (r : Rule) (scheme : String) (order offset : Nat) (t : Text)

theorem inOrder_delimitersOf (p : Option Pattern) {f : Nat × Nat → Label}
    (hf : ∀ m, (f m).matched = m) : Label.InOrder offset ((delimitersOf p offset t).map f) := by
  cases p with
  | none => exact .nil offset
  | some p => exact .map hf (fun m hm ↦ Pattern.delimiters_bounds hm) Pattern.pairwise_delimiters

theorem inOrder_openings : Label.InOrder offset (r.openings scheme order offset t) := by
  rw [openings]
  split
  · exact inOrder_delimitersOf offset t r.opener fun m ↦ rfl
  · exact .nil offset

theorem inOrder_closings : Label.InOrder offset (r.closings scheme order offset t) := by
  rw [closings]
  split
  · exact inOrder_delimitersOf offset t r.closer fun m ↦ rfl
  · exact .nil offset

variable {r scheme order offset t}

theorem eq_labelAt_of_mem_openings {l : Label} (h : l ∈ r.openings scheme order offset t) :
    ∃ m ∈ delimitersOf r.opener offset t,
      l = r.labelAt scheme order .opening (r.extension.startOf m) m.2 m := by
  rw [openings] at h
  split at h
  · obtain ⟨m, hm, rfl⟩ := List.mem_map.1 h
    exact ⟨m, hm, rfl⟩
  · cases h

theorem delimitersOf_nil (p : Option Pattern) : delimitersOf p offset [] = [] := by
  cases p with
  | none => rfl
  | some p => rfl

end Rule

end Highlighter
