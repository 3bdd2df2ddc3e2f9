import Highlighter.Brackets

/-!
Balanced sequences of brackets.
-/

namespace Highlighter.BracketChecker

def isBracket (c : Char) : Bool := (closerFor? c).isSome || isCloser c

/-- Every bracket has its partner, and pairs lie side by side or one within the other. -/
inductive Balanced : Text → Prop where
  | nil : Balanced []
  | pair {opener closer : Char} {inner rest : Text} (h : closerFor? opener = some closer)
      (hi : Balanced inner) (hr : Balanced rest) : Balanced (opener :: (inner ++ closer :: rest))

/-- The brackets of a text that are not masked. -/
def bracketsOf (masked : Nat → Bool) (t : Text) : Text :=
  (t.zipIdx.filter (fun (c, column) ↦ isBracket c && !masked column)).map Prod.fst

end Highlighter.BracketChecker
