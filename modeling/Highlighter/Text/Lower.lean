import Highlighter.Text.Basic
import Highlighter.Text.CaseTable

/-!
Lower-casing. Every letter is mapped on its own except the Greek sigma, whose small form differs
at the end of a word.
-/

namespace Highlighter.Text

def CaseRange.lower? (r : CaseRange) (n : Nat) : Option Nat :=
  if r.first ≤ n ∧ n ≤ r.last ∧ (n - r.first) % r.step = 0 then some ((n : Int) + r.shift).toNat
  else none

/-- The dotted capital I is the only character whose lower case takes two. -/
def lowerChar (c : Char) : Text :=
  if c = 'İ' then ['i', '\u0307']
  else match caseRanges.findSome? (·.lower? c.toNat) with
    | some n => [Char.ofNat n]
    | none => [c]

/-- Whether the first character that is not skipped is a letter with case. -/
def startsCased (t : Text) : Bool :=
  match t.dropWhile (fun c ↦ inRanges caseIgnorableRanges c.toNat) with
  | [] => false
  | c :: _ => inRanges casedRanges c.toNat

/-- The lower case of a sigma between the text read so far, last character first, and the rest. -/
def lowerSigma (before after : Text) : Char :=
  if startsCased before && !startsCased after then 'ς' else 'σ'

def lowerAfter (before : Text) : Text → Text
  | [] => []
  | c :: t => (if c = 'Σ' then [lowerSigma before t] else lowerChar c) ++ lowerAfter (c :: before) t

def lower (t : Text) : Text := lowerAfter [] t

end Highlighter.Text
