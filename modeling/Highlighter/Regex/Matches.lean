import Highlighter.Regex.Basic

/-!
What a regular expression matches, whatever match is preferred.
-/

namespace Highlighter.Regex

/-- From one place to another. -/
inductive Matches : Regex → Place → Place → Prop where
  | empty (p : Place) : Matches .empty p p
  | set {s : CharSet} {c : Char} {before : Option Char} {rest : Text} (h : s.contains c = true) :
      Matches (.set s) ⟨before, c :: rest⟩ ⟨some c, rest⟩
  | boundary {b : Boundary} {p : Place} (h : p.isAt b = true) : Matches (.boundary b) p p
  | seq {r s : Regex} {p q o : Place} (hr : Matches r p q) (hs : Matches s q o) :
      Matches (.seq r s) p o
  | left {r s : Regex} {p q : Place} (h : Matches r p q) : Matches (.alt r s) p q
  | right {r s : Regex} {p q : Place} (h : Matches s p q) : Matches (.alt r s) p q
  | stop {r : Regex} {most : Option Nat} {lazy : Bool} {p : Place} :
      Matches (.repeated r 0 most lazy) p p
  | step {r : Regex} {least : Nat} {most : Option Nat} {lazy : Bool} {p q o : Place}
      (hm : most ≠ some 0) (hr : Matches r p q)
      (hs : Matches (.repeated r (least - 1) (most.map (· - 1)) lazy) q o) :
      Matches (.repeated r least most lazy) p o

end Highlighter.Regex
