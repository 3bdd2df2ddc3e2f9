import Highlighter.Regex.Reader
import Highlighter.Color

/-!
Rules: how the occurrences of one label are found in a line, and what they look like.
-/

namespace Highlighter

/-- How a rule looks through a text: with delimiters anywhere, at the words between separators, or
at every character. -/
inductive SearchStrategy where
  | allText
  | separators (chars : List Char)
  | singleChar
  deriving DecidableEq, Repr

namespace SearchStrategy

def defaultSeparators : SearchStrategy :=
  .separators " \t()[]\x7b\x7d<>;:,.=+-*/%!&|^~?\"'\x60\\".toList

def isSeparator : SearchStrategy → Char → Bool
  | allText, _ => false
  | separators chars, c => Text.isBlank c || chars.contains c
  | singleChar, _ => true

end SearchStrategy

def maxOffset : Nat := 0xffffffffffffffff

inductive Adjust where
  | shift (n : Int)
  | exclude
  deriving DecidableEq, Repr

/-- An offset moved by a number of characters, but not out of the offsets. -/
def shiftOffset (offset : Nat) (n : Int) : Nat := min (offset + n).toNat maxOffset

structure Extension where
  start : Adjust := .shift 0
  stop : Adjust := .shift 0
  deriving DecidableEq, Repr

namespace Extension

def excludeDelimiters : Extension := ⟨.exclude, .exclude⟩

def startOf (e : Extension) (matched : Nat × Nat) : Nat :=
  match e.start with
  | .shift n => shiftOffset matched.1 n
  | .exclude => matched.2

def stopOf (e : Extension) (matched : Nat × Nat) : Nat :=
  match e.stop with
  | .shift n => shiftOffset matched.2 n
  | .exclude => matched.1

end Extension

/-- A library of patterns: which texts it takes for patterns, and in which texts it finds one. -/
class PatternLibrary (P : Type) where
  compile? (source : Text) : Option P
  isMatch (p : P) (t : Text) : Bool

open PatternLibrary

structure Pattern where
  source : Text
  regex : Regex
  deriving DecidableEq, Repr

namespace Pattern

def wholeSource (source : Text) : Text := "^(?:".toList ++ source ++ ")$".toList

@[default_instance]
instance : PatternLibrary Pattern where
  compile? source := (Regex.parse? source).map (⟨source, ·⟩)
  isMatch p t := p.regex.isMatch t

end Pattern

/-- A rule with patterns of one library. -/
structure LabelRule (P : Type) where
  name : String
  color : Color
  strategy : SearchStrategy
  opener : Option P := none
  closer : Option P := none
  multiLine : Bool := false
  extension : Extension := {}
  requires : Option String := none
  /-- Whether all its patterns were well formed. A rule that is not valid finds nothing. -/
  valid : Bool := true
  deriving DecidableEq, Repr

namespace LabelRule

variable {P : Type} [PatternLibrary P]

def delimited (name : String) (color : Color) (opener : Text) : LabelRule P :=
  let p := compile? opener
  { name, color, strategy := .allText, opener := p, valid := p.isSome }

def token (name : String) (color : Color) : LabelRule P :=
  { name, color, strategy := .defaultSeparators }

def singleChar (name : String) (color : Color) : LabelRule P :=
  { name, color, strategy := .singleChar }

def withCloser (r : LabelRule P) (source : Text) : LabelRule P :=
  let p := compile? source
  { r with closer := p, valid := r.valid && p.isSome }

/-- Lets a rule for words match those that the whole pattern matches, besides its own name. -/
def withPattern (r : LabelRule P) (source : Text) : LabelRule P :=
  let p := compile? (Pattern.wholeSource source)
  { r with opener := p, valid := r.valid && p.isSome }

def withSeparators (r : LabelRule P) (chars : Text) : LabelRule P :=
  { r with strategy := .separators chars }

def matchesToken (r : LabelRule P) (t : Text) : Bool :=
  t == r.name.toList || r.opener.any (isMatch · t)

end LabelRule

abbrev Rule := LabelRule Pattern

namespace Rule

export LabelRule (delimited token singleChar)

end Rule

end Highlighter
