import Highlighter.Buffer.Basic

/-!
What one knows of the lines of a buffer who knew all of them once and is told of the edits only.
-/

namespace Highlighter

/-- Lines of which the texts that may have changed are left out. -/
abbrev KnownLines := List (Option Text)

namespace Edit

/-- The lines after an edit. There is nothing to tell of an edit that does not lie in them. -/
def follow? : Edit → KnownLines → Option KnownLines
  | changed line, known => if line < known.length then some (known.set line none) else none
  | inserted first count, known =>
    if first ≤ known.length then
      some (known.take first ++ List.replicate count none ++ known.drop first)
    else none
  | removed first count, known =>
    if first + count ≤ known.length then some (known.take first ++ known.drop (first + count))
    else none

def followAll? (edits : List Edit) (known : KnownLines) : Option KnownLines :=
  edits.foldlM (fun known e ↦ e.follow? known) known

end Edit

namespace Buffer

def known (b : Buffer) : KnownLines := b.lines.map some

/-- Whether known lines are as many as there are, and have the texts that there are. -/
def Agrees (b : Buffer) (known : KnownLines) : Prop :=
  known.length = b.lineCount ∧ ∀ n t, known[n]? = some (some t) → b.line? n = some t

end Buffer

end Highlighter
