import Highlighter.Scheme.Basic
import Highlighter.Label.Basic
import Highlighter.Sorting

/-!
The occurrences of a rule in a text: its delimiters, or the words that it matches. Occurrences are
labels that are not paired yet; `offset` is the column at which the text stands in its line.
-/

namespace Highlighter

structure Word where
  start : Nat
  text : Text
  deriving DecidableEq, Repr

namespace Word

def stop (w : Word) : Nat := w.start + w.text.length

/-- The longest runs of characters that are no separators, in a text that starts at column `i`. -/
def allFrom (isSeparator : Char → Bool) (i : Nat) : Text → List Word
  | [] => []
  | c :: t =>
    let rest := allFrom isSeparator (i + 1) t
    if isSeparator c then rest
    else match rest with
      | [] => [⟨i, [c]⟩]
      | w :: later => if w.start = i + 1 then ⟨i, c :: w.text⟩ :: later else ⟨i, [c]⟩ :: rest

def singles (i : Nat) : Text → List Word
  | [] => []
  | c :: t => ⟨i, [c]⟩ :: singles (i + 1) t

end Word

def SearchStrategy.words (s : SearchStrategy) (offset : Nat) (t : Text) : List Word :=
  match s with
  | .singleChar => Word.singles offset t
  | _ => Word.allFrom s.isSeparator offset t

/-- Whether the character at an index has an odd number of backslashes before it. -/
def Text.isEscaped (t : Text) (index : Nat) : Bool :=
  ((t.take index).reverse.takeWhile (· == '\\')).length % 2 == 1

def Pattern.delimiters (p : Pattern) (offset : Nat) (t : Text) : List (Nat × Nat) :=
  ((p.regex.occurrences t).filter (fun m ↦ !Text.isEscaped t m.1)).map
    (fun m ↦ (m.1 + offset, m.2 + offset))

namespace Rule

/-- A label of a rule, which is the one of the given order in its scheme. -/
def labelAt (r : Rule) (scheme : String) (order : Nat) (kind : Label.Kind) (start stop : Nat)
    (matched : Nat × Nat) : Label where
  name := r.name
  scheme := scheme
  start := start
  stop := .column (max stop start)
  kind := kind
  matched := matched
  color := r.color
  order := order
  multiLine := r.multiLine
  requires := r.requires

def delimitersOf (p : Option Pattern) (offset : Nat) (t : Text) : List (Nat × Nat) :=
  match p with
  | none => []
  | some p => p.delimiters offset t

def openings (r : Rule) (scheme : String) (order offset : Nat) (t : Text) : List Label :=
  if r.valid then
    (delimitersOf r.opener offset t).map
      (fun m ↦ r.labelAt scheme order .opening (r.extension.startOf m) m.2 m)
  else []

def closings (r : Rule) (scheme : String) (order offset : Nat) (t : Text) : List Label :=
  if r.valid then
    (delimitersOf r.closer offset t).map
      (fun m ↦ r.labelAt scheme order .closing m.1 (max (r.extension.stopOf m) m.1) m)
  else []

def words (r : Rule) (scheme : String) (order offset : Nat) (t : Text) : List Label :=
  if r.valid then
    ((r.strategy.words offset t).filter (fun w ↦ r.matchesToken w.text)).map
      (fun w ↦ r.labelAt scheme order .single w.start w.stop (w.start, w.stop))
  else []

/-- Delimiters in the order of their places, at one place the opening one first. -/
def delimiterLe (a b : Label) : Bool :=
  decide (a.matched.1 < b.matched.1) ||
    (a.matched.1 == b.matched.1 && (a.kind != .closing || b.kind == .closing))

def occurrences (r : Rule) (scheme : String) (order offset : Nat) (t : Text) : List Label :=
  match r.strategy with
  | .allText =>
    Sorting.sort delimiterLe
      (r.openings scheme order offset t ++ r.closings scheme order offset t)
  | _ => r.words scheme order offset t

end Rule

def Scheme.occurrences (s : Scheme) (offset : Nat) (t : Text) : List (String × List Label) :=
  s.rules.zipIdx.filterMap fun (r, order) ↦
    match r.occurrences s.name order offset t with
    | [] => none
    | found => some (r.name, found)

end Highlighter
