import Highlighter.Buffer.Basic

/-!
Positions in a buffer as offsets in its content, and offsets in a text as positions.
-/

namespace Highlighter

/-- The line and the column of an offset: the newlines before it, and the characters after the
last of them. -/
def Text.positionAt (t : Text) (n : Nat) : Position where
  line := (t.take n).count '\n'
  column := ((t.take n).reverse.takeWhile (· != '\n')).length

namespace Buffer

/-- The nearest position in the buffer: in the last line at most, and at the end of its line. -/
def clamp (b : Buffer) (p : Position) : Position :=
  let n := min p.line b.lastLine
  ⟨n, min p.column (b.lineLength n)⟩

/-- The number of characters before a position, with a newline for every line above. -/
def offsetIn : List Text → Position → Nat
  | [], p => p.column
  | _ :: _, ⟨0, column⟩ => column
  | t :: rest, ⟨n + 1, column⟩ => t.length + 1 + offsetIn rest ⟨n, column⟩

def offset (b : Buffer) (p : Position) : Nat := offsetIn b.lines p

end Buffer

end Highlighter
