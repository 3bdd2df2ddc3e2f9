import Highlighter.Scheme.Rule
import Mathlib.Data.Nat.Notation

/-!
What a library of patterns promises of anchors and groups: how they are written, and what they
match in a row. All else that can stand in a pattern is left to the library.
-/

namespace Highlighter.PatternLibrary

inductive Item where
  | start
  | stop
  | group (p : Text)

def Item.text : Item → Text
  | start => ['^']
  | stop => ['$']
  | group p => "(?:".toList ++ p ++ [')']

/-- Anchors and groups in a row. -/
def rowText (row : List Item) : Text := row.flatMap Item.text

theorem rowText_append (row row' : List Item) :
    rowText (row ++ row') = rowText row ++ rowText row' := List.flatMap_append

variable (P : Type) [PatternLibrary P]

def IsPattern (p : Text) : Prop := (compile? p : Option P).isSome = true

instance : DecidablePred (IsPattern P) := fun p ↦
  inferInstanceAs (Decidable ((compile? p : Option P).isSome = true))

/-- Whether the groups of a row hold patterns. -/
def IsRow (row : List Item) : Prop := ∀ p, Item.group p ∈ row → IsPattern P p

variable {P} (Spans : P → Text → ℕ → ℕ → Prop) (t : Text)

/-- What an item matches, if `Spans` tells what patterns match. -/
def Item.Matches : Item → ℕ → ℕ → Prop
  | start, i, j => i = 0 ∧ j = 0
  | stop, i, j => i = t.length ∧ j = t.length
  | group p, i, j => ∃ e, compile? p = some e ∧ Spans e t i j

def MatchInTurn : List Item → ℕ → ℕ → Prop
  | [], i, j => i ≤ t.length ∧ j = i
  | x :: row, i, j => ∃ k, x.Matches Spans t i k ∧ MatchInTurn row k j

variable (P) in
/-- What is known of a library of regular expressions. `Spans e t i j` says that a pattern matches
a text from one place to another, whichever match is preferred, and `Fits` what is asked of a
pattern besides its syntax: that it sets no flags, names no two groups alike, and is neither too
large nor nested too deeply. -/
structure Laws (Fits : Text → Prop) : Prop where
  /-- A pattern is found where it matches some part of a text. -/
  isMatch_iff {p : Text} {e : P} (he : compile? p = some e) (t : Text) :
    isMatch e t = true ↔ ∃ i j, Spans e t i j
  /-- What stands in a row is matched in turn. -/
  compile?_row {row : List Item} (hr : IsRow P row) (hf : Fits (rowText row)) :
    ∃ e : P, compile? (rowText row) = some e ∧
      ∀ t i j, Spans e t i j ↔ MatchInTurn Spans t row i j
  /-- A group holds a pattern, up to a parenthesis that closes it. What can follow is the same for
  all groups. -/
  isPattern_group_iff {row : List Item} {s : Text} (hr : IsRow P row)
    (hf : Fits (rowText row ++ "(?:".toList ++ s)) :
    IsPattern P (rowText row ++ "(?:".toList ++ s) ↔ ∃ u v, s = u ++ ')' :: v ∧ IsPattern P u ∧
      IsPattern P (rowText (row ++ [.group []]) ++ v)
  /-- Outside of groups no parenthesis closes one. -/
  not_isPattern_close {u v : Text} (hu : IsPattern P u) (hf : Fits (u ++ ')' :: v)) :
    ¬IsPattern P (u ++ ')' :: v)

end Highlighter.PatternLibrary
