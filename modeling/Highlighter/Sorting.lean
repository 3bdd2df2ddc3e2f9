/-!
Stable sorting by insertion. The lists of one line are short, and this evaluates on them.
-/

namespace Highlighter.Sorting

variable {α : Type} {le : α → α → Bool} {a b : α} {l : List α}

/-- Puts an element before the first one that it may stand before. -/
def insert (le : α → α → Bool) (a : α) : List α → List α
  | [] => [a]
  | b :: rest => if le a b then a :: b :: rest else b :: insert le a rest

def sort (le : α → α → Bool) (l : List α) : List α := l.foldr (insert le) []

theorem perm_insert (le : α → α → Bool) (a : α) (l : List α) : (insert le a l).Perm (a :: l) := by
  induction l with
  | nil => exact .refl _
  | cons b l ih =>
    rw [insert]
    split
    · exact .refl _
    · exact (ih.cons b).trans (.swap a b l)

theorem perm_sort (le : α → α → Bool) (l : List α) : (sort le l).Perm l := by
  induction l with
  | nil => exact .refl _
  | cons a l ih => exact (perm_insert le a _).trans (ih.cons a)

theorem mem_sort : a ∈ sort le l ↔ a ∈ l := (perm_sort le l).mem_iff

theorem insert_append {before rest : List α} (hb : ∀ b ∈ before, le a b = false)
    (hr : ∀ b ∈ rest, le a b = true) : insert le a (before ++ rest) = before ++ a :: rest := by
  induction before with
  | nil =>
    cases rest with
    | nil => rfl
    | cons b rest => exact if_pos (hr b List.mem_cons_self)
  | cons b before ih =>
    obtain ⟨hb, hb'⟩ := List.forall_mem_cons.1 hb
    rw [List.cons_append, insert, hb, ih hb']
    rfl

theorem sort_of_pairwise (h : l.Pairwise fun a b ↦ le a b = true) : sort le l = l := by
  induction l with
  | nil => rfl
  | cons a l ih =>
    obtain ⟨ha, hl⟩ := List.pairwise_cons.1 h
    show insert le a (sort le l) = a :: l
    rw [ih hl]
    cases l with
    | nil => rfl
    | cons b l => exact if_pos (ha b List.mem_cons_self)

/-- What is equal in the order stays in the order in which it came. -/
theorem sort_eq_mergeSort (htrans : ∀ a b c, le a b = true → le b c = true → le a c = true)
    (htotal : ∀ a b, (le a b || le b a) = true) (l : List α) : sort le l = l.mergeSort le := by
  induction l with
  | nil => rw [List.mergeSort_nil]; rfl
  | cons a l ih =>
    obtain ⟨before, rest, h, hl, hb⟩ := List.mergeSort_cons htrans htotal a l
    have hp := List.pairwise_mergeSort htrans htotal (a :: l)
    rw [h] at hp ⊢
    show insert le a (sort le l) = before ++ a :: rest
    rw [ih, hl]
    refine insert_append (fun b hm ↦ by simpa using hb b hm) ?_
    exact (List.pairwise_cons.1 (List.pairwise_append.1 hp).2.1).1

theorem pairwise_sort (le : α → α → Bool)
    (htrans : ∀ a b c, le a b = true → le b c = true → le a c = true)
    (htotal : ∀ a b, (le a b || le b a) = true) (l : List α) :
    (sort le l).Pairwise fun a b ↦ le a b = true := by
  rw [sort_eq_mergeSort htrans htotal]
  exact List.pairwise_mergeSort htrans htotal l

theorem filter_insert (htrans : ∀ a b c, le a b = true → le b c = true → le a c = true)
    (h : l.Pairwise fun a b ↦ le a b = true) (p : α → Bool) :
    (insert le a l).filter p = if p a then insert le a (l.filter p) else l.filter p := by
  induction l with
  | nil => exact List.filter_cons
  | cons b l ih =>
    obtain ⟨hb, hl⟩ := List.pairwise_cons.1 h
    rw [insert]
    split
    · next hab =>
      have hrest : ∀ c ∈ (b :: l).filter p, le a c = true := fun c hc ↦ by
        obtain rfl | hc := List.mem_cons.1 (List.mem_filter.1 hc).1
        · exact hab
        · exact htrans a b c hab (hb c hc)
      rw [List.filter_cons]
      split
      · exact (insert_append (fun _ h ↦ absurd h List.not_mem_nil) hrest).symm
      · rfl
    · next hab =>
      rw [List.filter_cons, List.filter_cons, ih hl]
      split <;> split
      · rw [insert, if_neg hab]
      · rfl
      · rfl
      · rfl

/-- A selection of the sorted elements is the sorted selection. -/
theorem filter_sort (htrans : ∀ a b c, le a b = true → le b c = true → le a c = true)
    (htotal : ∀ a b, (le a b || le b a) = true) (p : α → Bool) (l : List α) :
    (sort le l).filter p = sort le (l.filter p) := by
  induction l with
  | nil => rfl
  | cons a l ih =>
    have hfilter := filter_insert htrans (pairwise_sort le htrans htotal l) p (a := a)
    rw [ih] at hfilter
    rw [List.filter_cons]
    refine hfilter.trans ?_
    split <;> rfl

/-- Of two different elements of an ordered list one stands before the other. -/
theorem rel_or_rel_of_mem {R : α → α → Prop} (h : l.Pairwise R) (ha : a ∈ l) (hb : b ∈ l)
    (hne : a ≠ b) : R a b ∨ R b a := by
  have hpair : l.Pairwise fun a b ↦ a ≠ b → R a b ∨ R b a := h.imp fun hab _ ↦ .inl hab
  have hflip : l.Pairwise fun a b ↦ b ≠ a → R b a ∨ R a b := h.imp fun hab _ ↦ .inr hab
  exact hpair.forall_of_forall_of_flip (fun _ _ hne ↦ absurd rfl hne) hflip ha hb hne

end Highlighter.Sorting
