import Highlighter.Color

/-!
Lines as they are drawn: texts in one color each, one after the other.
-/

namespace Highlighter

structure Span where
  text : Text
  color : Color
  deriving DecidableEq, Repr

structure StyledLine where
  spans : List Span
  deriving DecidableEq, Repr

namespace StyledLine

def empty : StyledLine := ⟨[]⟩

def isEmpty (line : StyledLine) : Bool := line.spans.isEmpty

def text (line : StyledLine) : Text := line.spans.flatMap Span.text

def length (line : StyledLine) : Nat := line.text.length

/-- Adds a span at the end, as a part of the last one when their colors agree. -/
def pushSpan (span : Span) : List Span → List Span
  | [] => [span]
  | [last] =>
    if last.color = span.color then [{ last with text := last.text ++ span.text }]
    else [last, span]
  | first :: next :: rest => first :: pushSpan span (next :: rest)

def push (line : StyledLine) (span : Span) : StyledLine :=
  if span.text.isEmpty then line else ⟨pushSpan span line.spans⟩

end StyledLine

end Highlighter
