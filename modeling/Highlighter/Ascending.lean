/-!
Finite sets of numbers as their lists in increasing order.
-/

namespace Highlighter.Ascending

def insert (n : Nat) : List Nat → List Nat
  | [] => [n]
  | m :: rest =>
    if n < m then n :: m :: rest
    else if n = m then m :: rest
    else m :: insert n rest

def ofList (l : List Nat) : List Nat := l.foldl (fun s n ↦ insert n s) []

theorem mem_insert {k n : Nat} {l : List Nat} : k ∈ insert n l ↔ k = n ∨ k ∈ l := by
  induction l with
  | nil => simp [insert]
  | cons m l ih =>
    obtain h | rfl | h := Nat.lt_trichotomy n m
    · rw [insert, if_pos h, List.mem_cons]
    · rw [insert, if_neg (Nat.lt_irrefl n), if_pos rfl, List.mem_cons, ← or_assoc, or_self]
    · rw [insert, if_neg (Nat.lt_asymm h), if_neg (Nat.ne_of_gt h), List.mem_cons, ih,
        List.mem_cons]
      exact or_left_comm

theorem pairwise_insert {n : Nat} {l : List Nat} (h : l.Pairwise (· < ·)) :
    (insert n l).Pairwise (· < ·) := by
  induction l with
  | nil => simp [insert]
  | cons m l ih =>
    obtain ⟨hm, hl⟩ := List.pairwise_cons.1 h
    rw [insert]
    split
    · next hn =>
      refine List.pairwise_cons.2 ⟨fun k hk ↦ ?_, h⟩
      obtain rfl | hk := List.mem_cons.1 hk
      · exact hn
      · exact Nat.lt_trans hn (hm k hk)
    · split
      · exact h
      · refine List.pairwise_cons.2 ⟨fun k hk ↦ ?_, ih hl⟩
        obtain rfl | hk := mem_insert.1 hk
        · omega
        · exact hm k hk

theorem mem_foldl_insert {k : Nat} {l s : List Nat} :
    k ∈ l.foldl (fun s n ↦ insert n s) s ↔ k ∈ l ∨ k ∈ s := by
  induction l generalizing s with
  | nil => simp
  | cons n l ih => rw [List.foldl_cons, ih, mem_insert, List.mem_cons, or_left_comm, or_assoc]

theorem mem_ofList {k : Nat} {l : List Nat} : k ∈ ofList l ↔ k ∈ l := by
  simp [ofList, mem_foldl_insert]

theorem pairwise_foldl_insert {l s : List Nat} (h : s.Pairwise (· < ·)) :
    (l.foldl (fun s n ↦ insert n s) s).Pairwise (· < ·) := by
  induction l generalizing s with
  | nil => exact h
  | cons n l ih => exact ih (pairwise_insert h)

theorem pairwise_ofList (l : List Nat) : (ofList l).Pairwise (· < ·) := pairwise_foldl_insert .nil

theorem le_getLastD {k n : Nat} {l : List Nat} (h : (n :: l).Pairwise (· < ·)) (hk : k ∈ n :: l) :
    k ≤ l.getLastD n := by
  induction l generalizing k n with
  | nil => exact Nat.le_of_eq (List.mem_singleton.1 hk)
  | cons m l ih =>
    obtain ⟨hn, hl⟩ := List.pairwise_cons.1 h
    rw [List.getLastD_cons]
    obtain rfl | hk := List.mem_cons.1 hk
    · exact Nat.le_trans (Nat.le_of_lt (hn m List.mem_cons_self)) (ih hl List.mem_cons_self)
    · exact ih hl hk

end Highlighter.Ascending
