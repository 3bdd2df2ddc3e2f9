import Highlighter.Text.Word

/-!
Regular expressions and their matches. Of all ways to match from one place the first in order of
preference counts: the left side of an alternative before the right one, and one more repetition
before one less, or after it if the repetition is lazy.
-/

namespace Highlighter

/-- Sets of characters, as a class of a pattern writes them. -/
inductive CharSet where
  | none
  | range (first last : Char)
  | decimal
  | blank
  | word
  | union (s t : CharSet)
  | inter (s t : CharSet)
  | compl (s : CharSet)
  /-- With each letter of the Latin alphabet, the same letter of the other case. -/
  | anyCase (s : CharSet)
  deriving DecidableEq, Repr

namespace CharSet

def single (c : Char) : CharSet := range c c

def ofList (l : List Char) : CharSet := l.foldr (fun c s ↦ union (single c) s) none

def contains : CharSet → Char → Bool
  | none, _ => false
  | range first last, c => decide (first ≤ c) && decide (c ≤ last)
  | decimal, c => Text.isDecimal c
  | blank, c => Text.isBlank c
  | word, c => Text.isWordChar c
  | union s t, c => s.contains c || t.contains c
  | inter s t, c => s.contains c && t.contains c
  | compl s, c => !s.contains c
  | anyCase s, c => s.contains c || s.contains c.toLower || s.contains c.toUpper

end CharSet

/-- A place in a text: the character before it, if there is one, and the text after it. -/
structure Place where
  before : Option Char
  rest : Text
  deriving DecidableEq, Repr

inductive Boundary where
  | textStart
  | textEnd
  | lineStart
  | lineEnd
  | word
  | notWord
  | wordStart
  | wordEnd
  | noWordBefore
  | noWordAfter
  deriving DecidableEq, Repr

namespace Place

def after (p : Place) : Option Char := p.rest.head?

def wordBefore (p : Place) : Bool := p.before.any Text.isWordChar

def wordAfter (p : Place) : Bool := p.after.any Text.isWordChar

def isAt (p : Place) : Boundary → Bool
  | .textStart => p.before.isNone
  | .textEnd => p.after.isNone
  | .lineStart => p.before.all (· == '\n')
  | .lineEnd => p.after.all (· == '\n')
  | .word => p.wordBefore != p.wordAfter
  | .notWord => p.wordBefore == p.wordAfter
  | .wordStart => !p.wordBefore && p.wordAfter
  | .wordEnd => p.wordBefore && !p.wordAfter
  | .noWordBefore => !p.wordBefore
  | .noWordAfter => !p.wordAfter

end Place

inductive Regex where
  | empty
  | set (s : CharSet)
  | boundary (b : Boundary)
  | seq (r s : Regex)
  | alt (r s : Regex)
  /-- At least `least` times, and at most `most` times if there is such a bound. -/
  | repeated (r : Regex) (least : Nat) (most : Option Nat) (lazy : Bool)
  deriving DecidableEq, Repr

namespace Regex

abbrev Next (α : Type) := Place → Option α

variable {α : Type}

def prefer (lazy : Bool) (more : Unit → Option α) (less : Unit → Option α) : Option α :=
  match if lazy then less () else more () with
  | some a => some a
  | none => if lazy then more () else less ()

def exactly (step : Place → Next α → Option α) : Nat → Place → Next α → Option α
  | 0, p, next => next p
  | n + 1, p, next => step p (fun q ↦ exactly step n q next)

def atMost (step : Place → Next α → Option α) (lazy : Bool) : Nat → Place → Next α → Option α
  | 0, p, next => next p
  | n + 1, p, next =>
    prefer lazy (fun _ ↦ step p (fun q ↦ atMost step lazy n q next)) (fun _ ↦ next p)

/-- Any number of steps. One that takes no character is the last; `fuel` exceeds the number of
characters left, so the others come to an end before it does. -/
def manyTimes (step : Place → Next α → Option α) (lazy : Bool) :
    Nat → Place → Next α → Option α
  | 0, p, next => next p
  | fuel + 1, p, next =>
    prefer lazy
      (fun _ ↦ step p (fun q ↦
        if q.rest.length < p.rest.length then manyTimes step lazy fuel q next else next q))
      (fun _ ↦ next p)

def run : Regex → Place → Next α → Option α
  | empty, p, next => next p
  | set s, p, next =>
    match p.rest with
    | [] => none
    | c :: rest => if s.contains c then next ⟨some c, rest⟩ else none
  | boundary b, p, next => if p.isAt b then next p else none
  | seq r s, p, next => run r p (fun q ↦ run s q next)
  | alt r s, p, next =>
    match run r p next with
    | some a => some a
    | none => run s p next
  | repeated r least most lazy, p, next =>
    exactly (run r) least p (fun q ↦
      match most with
      | none => manyTimes (run r) lazy (q.rest.length + 1) q next
      | some n => atMost (run r) lazy (n - least) q next)

def matchLength? (r : Regex) (p : Place) : Option Nat :=
  r.run p (fun q ↦ some (p.rest.length - q.rest.length))

def matchesAfter (r : Regex) (before : Option Char) : Text → Bool
  | [] => (r.matchLength? ⟨before, []⟩).isSome
  | c :: t => (r.matchLength? ⟨before, c :: t⟩).isSome || matchesAfter r (some c) t

def isMatch (r : Regex) (t : Text) : Bool := r.matchesAfter none t

/-- The ranges of the non-empty matches, each found from the end of the one before it; `skip`
counts the characters left of that one. -/
def occurrencesFrom (r : Regex) (i : Nat) (before : Option Char) (skip : Nat) :
    Text → List (Nat × Nat)
  | [] => []
  | c :: t =>
    match skip with
    | n + 1 => occurrencesFrom r (i + 1) (some c) n t
    | 0 =>
      match r.matchLength? ⟨before, c :: t⟩ with
      | some (n + 1) => (i, i + n + 1) :: occurrencesFrom r (i + 1) (some c) n t
      | _ => occurrencesFrom r (i + 1) (some c) 0 t

def occurrences (r : Regex) (t : Text) : List (Nat × Nat) := r.occurrencesFrom 0 none 0 t

end Regex

end Highlighter
