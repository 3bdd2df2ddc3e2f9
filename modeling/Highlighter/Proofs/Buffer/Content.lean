import Highlighter.Buffer.Offset
import Highlighter.Proofs.Buffer.Replay

/-!
The content of a buffer around a position: the lines above it with the part of its line that is
before it, and the rest of the line with the lines below.
-/

namespace Highlighter

namespace Text

theorem joinLines_singleton (t : Text) : joinLines [t] = t := by
  simp [joinLines, List.intercalate]

theorem joinLines_cons (t : Text) {rest : List Text} (h : rest ≠ []) :
    joinLines (t :: rest) = t ++ '\n' :: joinLines rest := by
  cases rest with
  | nil => exact absurd rfl h
  | cons u rest => simp [joinLines, List.intercalate]

/-- Joined lines that are cut within one of them. -/
theorem joinLines_append (above : List Text) (head tail : Text) (below : List Text) :
    joinLines (above ++ (head ++ tail) :: below) =
      joinLines (above ++ [head]) ++ joinLines (tail :: below) := by
  induction above with
  | nil =>
    rw [List.nil_append, List.nil_append, joinLines_singleton]
    cases below with
    | nil => rw [joinLines_singleton, joinLines_singleton]
    | cons u below =>
      rw [joinLines_cons _ (List.cons_ne_nil u below), joinLines_cons _ (List.cons_ne_nil u below),
        List.append_assoc]
  | cons t above ih =>
    rw [List.cons_append, joinLines_cons t (by simp), ih, List.cons_append,
      joinLines_cons t (by simp), List.append_assoc, List.cons_append]

end Text

open Text

namespace Buffer

theorem offsetIn_append (above : List Text) (head tail : Text) (below : List Text) :
    offsetIn (above ++ (head ++ tail) :: below) ⟨above.length, head.length⟩ =
      (joinLines (above ++ [head])).length := by
  induction above with
  | nil => rw [List.nil_append, List.nil_append, joinLines_singleton]; rfl
  | cons t above ih =>
    rw [List.cons_append, List.length_cons, offsetIn, ih, List.cons_append,
      joinLines_cons t (by simp), List.length_append, List.length_cons]
    omega

theorem lineAt_eq_getElem {b : Buffer} {n : Nat} (hn : n < b.lines.length) :
    b.lineAt n = b.lines[n] := by
  rw [lineAt, List.getD_eq_getElem?_getD, List.getElem?_eq_getElem hn, Option.getD_some]

/-- The lines around a column of one of them. -/
theorem lines_eq_append {b : Buffer} {n : Nat} (hn : n < b.lineCount) (column : Nat) :
    b.lines = b.lines.take n ++
      ((b.lineAt n).take column ++ (b.lineAt n).drop column) :: b.lines.drop (n + 1) := by
  rw [List.take_append_drop, lineAt_eq_getElem hn, ← List.drop_eq_getElem_cons hn,
    List.take_append_drop]

/-- The text before the place in the buffer that is nearest to a position. -/
def textBefore (b : Buffer) (p : Position) : Text :=
  let n := min p.line b.lastLine
  joinLines (b.lines.take n ++ [(b.lineAt n).take p.column])

/-- The text from the place in the buffer on that is nearest to a position. -/
def textFrom (b : Buffer) (p : Position) : Text :=
  let n := min p.line b.lastLine
  joinLines ((b.lineAt n).drop p.column :: b.lines.drop (n + 1))

theorem textBefore_append_textFrom (b : Buffer) (p : Position) :
    b.textBefore p ++ b.textFrom p = b.content := by
  rw [textBefore, textFrom, ← joinLines_append,
    ← lines_eq_append (b.min_lastLine_lt p.line) p.column, content]

theorem length_textBefore (b : Buffer) (p : Position) :
    (b.textBefore p).length = b.offset (b.clamp p) := by
  have hn := b.min_lastLine_lt p.line
  have h := offsetIn_append (b.lines.take (min p.line b.lastLine))
    ((b.lineAt (min p.line b.lastLine)).take p.column)
    ((b.lineAt (min p.line b.lastLine)).drop p.column)
    (b.lines.drop (min p.line b.lastLine + 1))
  rw [← lines_eq_append hn, List.length_take_of_le (Nat.le_of_lt hn), List.length_take] at h
  exact h.symm

theorem take_offset (b : Buffer) (p : Position) :
    b.content.take (b.offset (b.clamp p)) = b.textBefore p := by
  rw [← length_textBefore, ← textBefore_append_textFrom b p, List.take_left]

theorem drop_offset (b : Buffer) (p : Position) :
    b.content.drop (b.offset (b.clamp p)) = b.textFrom p := by
  rw [← length_textBefore, ← textBefore_append_textFrom b p, List.drop_left]

theorem offset_clamp_le (b : Buffer) (p : Position) :
    b.offset (b.clamp p) ≤ b.content.length := by
  rw [← length_textBefore, ← textBefore_append_textFrom b p, List.length_append]
  exact Nat.le_add_right _ _

/-! ### Offsets and the order of positions -/

theorem offsetIn_column (lines : List Text) (n column : Nat) :
    offsetIn lines ⟨n, column⟩ = offsetIn lines ⟨n, 0⟩ + column := by
  induction lines generalizing n with
  | nil => exact (Nat.zero_add column).symm
  | cons t lines ih =>
    cases n with
    | zero => exact (Nat.zero_add column).symm
    | succ n => rw [offsetIn, offsetIn, ih n, Nat.add_assoc _ _ column]

/-- A line ends before the next one begins. -/
theorem offsetIn_lt {lines : List Text} {n m column : Nat} (hnm : n < m) (hm : m < lines.length)
    (hc : column ≤ (lines.getD n []).length) (column' : Nat) :
    offsetIn lines ⟨n, column⟩ < offsetIn lines ⟨m, column'⟩ := by
  induction lines generalizing n m with
  | nil => exact absurd hm (Nat.not_lt_zero m)
  | cons t lines ih =>
    obtain ⟨m, rfl⟩ : ∃ k, m = k + 1 := ⟨m - 1, by omega⟩
    cases n with
    | zero =>
      have hc : column ≤ t.length := hc
      simp only [offsetIn]
      omega
    | succ n =>
      have h := ih (Nat.lt_of_succ_lt_succ hnm) (Nat.lt_of_succ_lt_succ hm) hc
      simp only [offsetIn]
      omega

end Buffer

end Highlighter
