import Highlighter.Text.Basic
import Highlighter.Edit

/-!
The text being edited, as lines. Every mutation records the edits that tell what it did, in the
order in which they have to be replayed; arguments out of range are moved into it or refused.
-/

namespace Highlighter

structure Buffer where
  lines : List Text
  lines_ne_nil : lines ≠ [] := by simp
  pending : List Edit := []

namespace Buffer

def empty : Buffer := { lines := [[]] }

def ofText (t : Text) : Buffer :=
  { lines := Text.splitLines t, lines_ne_nil := Text.splitLines_ne_nil t }

def content (b : Buffer) : Text := Text.joinLines b.lines

def lineCount (b : Buffer) : Nat := b.lines.length

def line? (b : Buffer) (n : Nat) : Option Text := b.lines[n]?

/-- The text of a line, and of a line that is not there the empty one. -/
def lineAt (b : Buffer) (n : Nat) : Text := b.lines.getD n []

def lineLength (b : Buffer) (n : Nat) : Nat := (b.lineAt n).length

def isEmpty (b : Buffer) : Bool := b.lines == [[]]

def hasPending (b : Buffer) : Bool := !b.pending.isEmpty

def takeEdits (b : Buffer) : List Edit × Buffer := (b.pending, { b with pending := [] })

def lastLine (b : Buffer) : Nat := b.lineCount - 1

def replaceLine (b : Buffer) (n : Nat) (t : Text) : Buffer where
  lines := b.lines.set n t
  lines_ne_nil := by simpa using b.lines_ne_nil
  pending := b.pending ++ [.changed n]

def replaceIfNew (b : Buffer) (n : Nat) (t : Text) : Buffer :=
  if b.lineAt n = t then b else b.replaceLine n t

def insertLines (b : Buffer) (n : Nat) (new : List Text) : Buffer where
  lines := b.lines.take n ++ new ++ b.lines.drop n
  lines_ne_nil := by
    intro h
    simp only [List.append_eq_nil_iff] at h
    exact b.lines_ne_nil (by rw [← List.take_append_drop n b.lines, h.1.1, h.2, List.append_nil])
  pending := b.pending ++ [.inserted n new.length]

/-- Takes away the lines after line `n` up to line `n + count`. -/
def removeAfter (b : Buffer) (n count : Nat) : Buffer where
  lines := b.lines.take (n + 1) ++ b.lines.drop (n + 1 + count)
  lines_ne_nil := by
    intro h
    simp only [List.append_eq_nil_iff, List.take_eq_nil_iff] at h
    exact b.lines_ne_nil (h.1.resolve_left (by omega))
  pending := b.pending ++ [.removed (n + 1) count]

/-- Sets the text of a line, which has to exist. An equal text is no edit. -/
def setLine? (b : Buffer) (n : Nat) (t : Text) : Option Buffer :=
  if n < b.lineCount then some (b.replaceIfNew n t) else none

def insertLine (b : Buffer) (n : Nat) (t : Text) : Buffer := b.insertLines (min n b.lineCount) [t]

def pushLine (b : Buffer) (t : Text) : Buffer := b.insertLine b.lineCount t

/-- Takes a line out and returns its text. The only line is emptied instead. -/
def removeLine? (b : Buffer) (n : Nat) : Option (Text × Buffer) :=
  if n < b.lineCount then
    if h : (b.lines.eraseIdx n) = [] then some (b.lineAt n, b.replaceIfNew n [])
    else some (b.lineAt n, ⟨b.lines.eraseIdx n, h, b.pending ++ [.removed n 1]⟩)
  else none

/-- Inserts text at a position and returns the position of its end. -/
def insertText (b : Buffer) (p : Position) (t : Text) : Position × Buffer :=
  let n := min p.line b.lastLine
  let head := (b.lineAt n).take p.column
  let tail := (b.lineAt n).drop p.column
  match Text.splitLines t with
  | [] => (⟨n, head.length⟩, b)
  | [piece] => (⟨n, head.length + piece.length⟩, b.replaceLine n (head ++ piece ++ tail))
  | piece :: next :: rest =>
    let last := (next :: rest).getLastD []
    let new := (next :: rest).dropLast ++ [last ++ tail]
    (⟨n + new.length, last.length⟩, (b.replaceLine n (head ++ piece)).insertLines (n + 1) new)

def deleteRange (b : Buffer) (p q : Position) : Buffer :=
  let (low, high) := if p.le q then (p, q) else (q, p)
  let first := min low.line b.lastLine
  let last := min high.line b.lastLine
  let joined := (b.lineAt first).take low.column ++ (b.lineAt last).drop high.column
  if first < last then
    (b.replaceIfNew first joined).removeAfter first (last - first)
  else b.replaceIfNew first joined

end Buffer

end Highlighter
