import Highlighter.Refresh.Queue

/-!
The lines that wait in a refresh queue, as the list in which they are popped: what each operation
makes of it, and that a line gets lost only by being popped or removed.
-/

namespace Highlighter.RefreshQueue

theorem contains_iff_mem {q : RefreshQueue} {line : Nat} :
    q.contains line = true ↔ line ∈ q.toList := by
  simp [contains, toList]

theorem isEmpty_iff {q : RefreshQueue} : q.isEmpty = true ↔ q.toList = [] := by
  simp [isEmpty, toList]

/-! ### Taking lines in -/

theorem mem_insertLast {k line : Nat} {windows : List (List Nat)} :
    k ∈ (insertLast line windows).flatten ↔ k = line ∨ k ∈ windows.flatten := by
  induction windows using insertLast.induct with
  | case1 => simp [insertLast]
  | case2 window => simp [insertLast, Ascending.mem_insert]
  | case3 window next rest ih =>
    simp only [insertLast, List.flatten_cons, List.mem_append] at ih ⊢
    rw [ih]
    exact or_left_comm

theorem mem_push {q : RefreshQueue} {k line : Nat} :
    k ∈ (q.push line).2.toList ↔ k = line ∨ k ∈ q.toList := by
  rw [push]
  split
  · next h =>
    have hl := contains_iff_mem.1 h
    constructor
    · exact Or.inr
    · rintro (rfl | hk)
      · exact hl
      · exact hk
  · split
    · exact mem_insertLast
    · simp [toList, or_comm]

theorem mem_pushAll {q : RefreshQueue} {k : Nat} {lines : List Nat} :
    k ∈ (q.pushAll lines).toList ↔ k ∈ lines ∨ k ∈ q.toList := by
  induction lines generalizing q with
  | nil => simp [pushAll]
  | cons line lines ih =>
    have h := ih (q := (q.push line).2)
    simp only [pushAll, List.foldl_cons, List.mem_cons] at h ⊢
    rw [h, mem_push, or_left_comm, or_assoc]

/-! ### Giving lines out -/

theorem popFrom_eq {collecting : Bool} {windows : List (List Nat)} :
    (popFrom collecting windows).1 = windows.flatten.head? ∧
      (popFrom collecting windows).2.toList = windows.flatten.tail := by
  induction windows using popFrom.induct with
  | case1 => simp [popFrom, toList]
  | case2 rest ih => simpa [popFrom] using ih
  | case3 line window rest => simp [popFrom, toList]

theorem pop_fst (q : RefreshQueue) : q.pop.1 = q.toList.head? := popFrom_eq.1

theorem toList_pop (q : RefreshQueue) : q.pop.2.toList = q.toList.tail := popFrom_eq.2

/-- A batch is the front of the queue, and the rest stays. -/
theorem popMany_eq (n : Nat) (q : RefreshQueue) :
    (popMany n q).1 = q.toList.take n ∧ (popMany n q).2.toList = q.toList.drop n := by
  induction n generalizing q with
  | zero => simp [popMany]
  | succ n ih =>
    have hf := pop_fst q
    have ht := toList_pop q
    rw [popMany]
    generalize q.pop = p at hf ht
    obtain ⟨line, rest⟩ := p
    cases hl : q.toList with
    | nil =>
      obtain rfl : line = none := by simpa [hl] using hf
      simpa [hl] using ht
    | cons first lines =>
      obtain rfl : line = some first := by simpa [hl] using hf
      have hr : rest.toList = lines := by simpa [hl] using ht
      simpa [hr] using ih rest

theorem mem_popMany {n k : Nat} {q : RefreshQueue} :
    k ∈ q.toList ↔ k ∈ (popMany n q).1 ∨ k ∈ (popMany n q).2.toList := by
  obtain ⟨hb, hr⟩ := popMany_eq n q
  rw [hb, hr, ← List.mem_append, List.take_append_drop]

/-! ### Removing and moving lines -/

theorem flatten_eraseFirst (line : Nat) (windows : List (List Nat)) :
    (eraseFirst line windows).flatten = windows.flatten.erase line := by
  induction windows with
  | nil => rfl
  | cons window rest ih =>
    rw [eraseFirst, List.flatten_cons, List.erase_append]
    by_cases h : line ∈ window
    · simp [h]
    · simp [h, ih]

theorem toList_remove (q : RefreshQueue) (line : Nat) :
    (q.remove line).2.toList = q.toList.erase line := by
  rw [remove]
  split
  · exact flatten_eraseFirst line q.windows
  · next h => rw [List.erase_of_not_mem (mt contains_iff_mem.2 h)]

theorem mem_remove_of_ne {q : RefreshQueue} {k line : Nat} (h : k ≠ line) :
    k ∈ (q.remove line).2.toList ↔ k ∈ q.toList := by
  rw [toList_remove, List.mem_erase_of_ne h]

theorem toList_move (q : RefreshQueue) (e : Edit) :
    (q.move e).toList = q.toList.filterMap e.mapLine := by
  simp [move, toList]

theorem mem_move {q : RefreshQueue} {e : Edit} {k : Nat} :
    k ∈ (q.move e).toList ↔ ∃ line ∈ q.toList, e.mapLine line = some k := by
  rw [toList_move, List.mem_filterMap]

/-- Of the lines that wait after an insertion, none is a new one. -/
theorem mem_move_inserted {q : RefreshQueue} {first count k : Nat} :
    k ∈ (q.move (.inserted first count)).toList ↔
      k < first ∧ k ∈ q.toList ∨ first + count ≤ k ∧ k - count ∈ q.toList := by
  rw [mem_move]
  simp only [Edit.mapLine, Option.some.injEq]
  constructor
  · rintro ⟨line, hl, hk⟩
    split at hk
    · refine .inr ⟨by omega, ?_⟩
      rwa [← hk, Nat.add_sub_cancel]
    · exact .inl ⟨by omega, hk ▸ hl⟩
  · rintro (⟨hk, hq⟩ | ⟨hk, hq⟩)
    · exact ⟨k, hq, by rw [if_neg (by omega)]⟩
    · exact ⟨k - count, hq, by rw [if_pos (by omega)]; omega⟩

theorem mem_move_removed {q : RefreshQueue} {first count k : Nat} :
    k ∈ (q.move (.removed first count)).toList ↔
      (if k < first then k else k + count) ∈ q.toList := by
  rw [mem_move]
  simp only [Edit.mapLine]
  constructor
  · rintro ⟨line, hl, hk⟩
    split at hk
    · cases hk
      rwa [if_pos ‹_›]
    · split at hk
      · cases hk
      · cases hk
        rwa [if_neg (by omega), Nat.sub_add_cancel (by omega)]
  · intro hq
    refine ⟨_, hq, ?_⟩
    split
    · rfl
    · rw [if_neg (by omega), if_neg (by omega), Nat.add_sub_cancel]

end Highlighter.RefreshQueue
