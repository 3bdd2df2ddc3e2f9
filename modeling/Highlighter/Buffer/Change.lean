import Highlighter.Buffer.Basic

/-!
The mutations of a buffer as data, with what each of them answers.
-/

namespace Highlighter.Buffer

inductive Change where
  | setLine (n : Nat) (t : Text)
  | insertLine (n : Nat) (t : Text)
  | pushLine (t : Text)
  | removeLine (n : Nat)
  | insertText (p : Position) (t : Text)
  | deleteRange (p q : Position)
  deriving DecidableEq, Repr

inductive Answer where
  | nothing
  | found (b : Bool)
  | removed (t : Option Text)
  | endsAt (p : Position)
  deriving DecidableEq, Repr

def perform (b : Buffer) : Change → Answer × Buffer
  | .setLine n t =>
    match b.setLine? n t with
    | some b => (.found true, b)
    | none => (.found false, b)
  | .insertLine n t => (.nothing, b.insertLine n t)
  | .pushLine t => (.nothing, b.pushLine t)
  | .removeLine n =>
    match b.removeLine? n with
    | some (t, b) => (.removed (some t), b)
    | none => (.removed none, b)
  | .insertText p t =>
    let (q, b) := b.insertText p t
    (.endsAt q, b)
  | .deleteRange p q => (.nothing, b.deleteRange p q)

def after (b : Buffer) (changes : List Change) : Buffer :=
  changes.foldl (fun b c ↦ (b.perform c).2) b

end Highlighter.Buffer
