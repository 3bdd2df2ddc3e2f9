import Highlighter.Proofs.Buffer.Content

/-!
Deleting between two positions takes a stretch out of the content of a buffer, unless both
positions are moved into the last line and change their order there: then the text between them
is doubled.
-/

namespace Highlighter.Buffer

open Text

theorem lines_replaceIfNew {b : Buffer} {n : Nat} (hn : n < b.lines.length) (t : Text) :
    (b.replaceIfNew n t).lines = b.lines.set n t := by
  rw [replaceIfNew]
  split
  · next h => rw [← h, lineAt_eq_getElem hn, List.set_getElem_self]
  · rfl

theorem lines_removeAfter (b : Buffer) (n count : Nat) :
    (b.removeAfter n count).lines = b.lines.take (n + 1) ++ b.lines.drop (n + 1 + count) := rfl

/-- The part of the lower line before its column and the part of the higher line after its column
become one line. -/
theorem lines_deleteRange_of_le (b : Buffer) {p q : Position} (h : p.le q = true) :
    (b.deleteRange p q).lines =
      b.lines.take (min p.line b.lastLine) ++
        ((b.lineAt (min p.line b.lastLine)).take p.column ++
          (b.lineAt (min q.line b.lastLine)).drop q.column) ::
        b.lines.drop (min q.line b.lastLine + 1) := by
  have hp : min p.line b.lastLine < b.lines.length := b.min_lastLine_lt p.line
  have hle : min p.line b.lastLine ≤ min q.line b.lastLine := by
    rw [Position.le_iff] at h
    omega
  simp only [deleteRange, h, if_true]
  generalize min p.line b.lastLine = first at *
  generalize min q.line b.lastLine = last at *
  generalize (b.lineAt first).take p.column ++ (b.lineAt last).drop q.column = joined
  split
  · next hlt =>
    rw [lines_removeAfter, lines_replaceIfNew hp, List.drop_set_of_lt (by omega),
      List.take_add_one, List.take_set_of_le (Nat.le_refl first), List.getElem?_set_self hp,
      show first + 1 + (last - first) = last + 1 by omega, Option.toList_some, List.append_assoc,
      List.singleton_append]
  · next hlt =>
    obtain rfl : first = last := Nat.le_antisymm hle (Nat.le_of_not_lt hlt)
    rw [lines_replaceIfNew hp, List.set_eq_take_append_cons_drop, if_pos hp]

theorem content_deleteRange_of_le (b : Buffer) {p q : Position} (h : p.le q = true) :
    (b.deleteRange p q).content =
      b.content.take (b.offset (b.clamp p)) ++ b.content.drop (b.offset (b.clamp q)) := by
  rw [content, lines_deleteRange_of_le b h, joinLines_append, take_offset, drop_offset]
  rfl

theorem deleteRange_comm (b : Buffer) (p q : Position) : b.deleteRange p q = b.deleteRange q p := by
  by_cases hpq : p.le q = true
  · by_cases hqp : q.le p = true
    · rw [Position.le_antisymm hpq hqp]
    · simp only [deleteRange, hpq, hqp]
      rfl
  · have hqp : q.le p = true := by simpa [hpq] using Position.le_total p q
    simp only [deleteRange, hpq, hqp]
    rfl

/-- Whether two positions, the first of them on an earlier line, both get moved into the last line
and stand there the other way round. -/
def Crossing (b : Buffer) (p q : Position) : Prop :=
  p.line < q.line ∧ b.lastLine ≤ p.line ∧
    min q.column (b.lineLength b.lastLine) < min p.column (b.lineLength b.lastLine)

theorem offset_le_offset_iff (b : Buffer) {p q : Position} (h : p.le q = true) :
    b.offset (b.clamp p) ≤ b.offset (b.clamp q) ↔ ¬b.Crossing p q := by
  rw [Position.le_iff] at h
  simp only [Crossing, offset, clamp]
  by_cases hlt : min p.line b.lastLine < min q.line b.lastLine
  · have hless := offsetIn_lt hlt (b.min_lastLine_lt q.line)
      (Nat.min_le_right p.column (b.lineLength (min p.line b.lastLine)))
    exact iff_of_true (Nat.le_of_lt (hless _)) (by omega)
  · have heq : min p.line b.lastLine = min q.line b.lastLine := by omega
    rw [heq, offsetIn_column, offsetIn_column b.lines _ (min q.column _), Nat.add_le_add_iff_left]
    by_cases hline : p.line < q.line
    · have hq : min q.line b.lastLine = b.lastLine := by omega
      have hp : b.lastLine ≤ p.line := by omega
      rw [hq, not_and, not_and, Nat.not_lt]
      exact ⟨fun hle _ _ ↦ hle, fun hle ↦ hle hline hp⟩
    · exact iff_of_true (by omega) fun hc ↦ hline hc.1

theorem not_crossing_of_le (b : Buffer) {p q : Position} (h : p.le q = true) : ¬b.Crossing q p := by
  rw [Position.le_iff] at h
  intro hc
  have hline := hc.1
  omega

/-- Joining the front of a list to a back of it takes a stretch out only if the front ends before
the back begins. -/
theorem take_append_drop_iff {α : Type} {l : List α} {m n : Nat} (hm : m ≤ l.length)
    (hn : n ≤ l.length) :
    (l.take m ++ l.drop n = l.take (min m n) ++ l.drop (max m n) ↔ m ≤ n) ∧
      ((l.take m ++ l.drop n).length ≤ l.length ↔ m ≤ n) := by
  have hlength : (l.take m ++ l.drop n).length = m + (l.length - n) := by
    rw [List.length_append, List.length_take_of_le hm, List.length_drop]
  constructor
  · constructor
    · intro h
      have h := congrArg List.length h
      rw [hlength, List.length_append, List.length_take_of_le (by omega), List.length_drop] at h
      omega
    · intro h
      rw [Nat.min_eq_left h, Nat.max_eq_right h]
  · omega

/-- What lies between the two places is taken out, and nothing else, exactly if the two positions
do not change their order on the way into the last line. Exactly then the content gets no longer. -/
theorem content_deleteRange_iff (b : Buffer) (p q : Position) :
    let k₁ := min (b.offset (b.clamp p)) (b.offset (b.clamp q))
    let k₂ := max (b.offset (b.clamp p)) (b.offset (b.clamp q))
    ((b.deleteRange p q).content = b.content.take k₁ ++ b.content.drop k₂ ↔
        ¬b.Crossing p q ∧ ¬b.Crossing q p) ∧
      ((b.deleteRange p q).content.length ≤ b.content.length ↔
        ¬b.Crossing p q ∧ ¬b.Crossing q p) := by
  intro k₁ k₂
  by_cases h : p.le q = true
  · rw [and_iff_left (b.not_crossing_of_le h), content_deleteRange_of_le b h,
      ← offset_le_offset_iff b h]
    exact take_append_drop_iff (b.offset_clamp_le p) (b.offset_clamp_le q)
  · have h : q.le p = true := by simpa [h] using Position.le_total p q
    have hk₁ : k₁ = min (b.offset (b.clamp q)) (b.offset (b.clamp p)) := Nat.min_comm _ _
    have hk₂ : k₂ = max (b.offset (b.clamp q)) (b.offset (b.clamp p)) := Nat.max_comm _ _
    rw [and_iff_right (b.not_crossing_of_le h), deleteRange_comm, content_deleteRange_of_le b h,
      ← offset_le_offset_iff b h, hk₁, hk₂]
    exact take_append_drop_iff (b.offset_clamp_le q) (b.offset_clamp_le p)

/-- Of two positions below the only line, the first one is moved behind its second character and
the other one to its start: the two characters stand twice then. -/
theorem not_content_deleteRange_crossing :
    let b : Buffer := { lines := [['a', 'b', 'c']] }
    let p : Position := ⟨1, 2⟩
    let q : Position := ⟨2, 0⟩
    let k₁ := min (b.offset (b.clamp p)) (b.offset (b.clamp q))
    let k₂ := max (b.offset (b.clamp p)) (b.offset (b.clamp q))
    (∀ line ∈ b.lines, '\n' ∉ line) ∧ k₁ = 0 ∧ k₂ = 2 ∧
      (b.deleteRange p q).content = ['a', 'b', 'a', 'b', 'c'] ∧
      (b.deleteRange p q).content ≠ b.content.take k₁ ++ b.content.drop k₂ := by
  decide

end Highlighter.Buffer
