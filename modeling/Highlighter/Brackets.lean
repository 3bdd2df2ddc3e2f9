import Highlighter.Document

/-!
Brackets without partners. A closing bracket that does not fit the innermost open one is reported
and otherwise ignored; what is open at the end is reported last.
-/

namespace Highlighter

inductive BracketProblem.Kind where
  | unexpected (c : Char)
  | mismatched (expected found : Char)
  | unclosed (c : Char)
  deriving DecidableEq, Repr

structure BracketProblem where
  line : Nat
  column : Nat
  kind : BracketProblem.Kind
  deriving DecidableEq, Repr

namespace BracketProblem

def Kind.message : Kind → String
  | unexpected c => "unexpected '" ++ c.toString ++ "'"
  | mismatched expected found =>
    "expected '" ++ expected.toString ++ "', found '" ++ found.toString ++ "'"
  | unclosed c => "unclosed '" ++ c.toString ++ "'"

def message (p : BracketProblem) : String :=
  toString (p.line + 1) ++ ":" ++ toString (p.column + 1) ++ ": " ++ p.kind.message

end BracketProblem

structure OpenBracket where
  char : Char
  line : Nat
  column : Nat
  deriving DecidableEq, Repr

structure BracketChecker where
  /-- The brackets that are open, innermost first. -/
  stack : List OpenBracket := []
  /-- The problems found, last first. -/
  problems : List BracketProblem := []
  deriving DecidableEq, Repr

namespace BracketChecker

def closerFor? (c : Char) : Option Char :=
  if c = '(' then some ')' else if c = '[' then some ']' else if c = '{' then some '}' else none

def isCloser (c : Char) : Bool := c == ')' || c == ']' || c == '}'

def report (b : BracketChecker) (line column : Nat) (kind : BracketProblem.Kind) : BracketChecker :=
  { b with problems := ⟨line, column, kind⟩ :: b.problems }

def close (b : BracketChecker) (line column : Nat) (c : Char) : BracketChecker :=
  match b.stack with
  | [] => b.report line column (.unexpected c)
  | top :: rest =>
    match closerFor? top.char with
    | none => { b with stack := rest }
    | some expected =>
      if expected = c then { b with stack := rest }
      else b.report line column (.mismatched expected c)

def check (b : BracketChecker) (line column : Nat) (c : Char) : BracketChecker :=
  if (closerFor? c).isSome then { b with stack := ⟨c, line, column⟩ :: b.stack }
  else if isCloser c then b.close line column c
  else b

/-- Goes on with the characters of a line from a column on, but for the masked ones. -/
def checkFrom (masked : Nat → Bool) (line : Nat) : Nat → Text → BracketChecker → BracketChecker
  | _, [], b => b
  | column, c :: t, b =>
    checkFrom masked line (column + 1) t (if masked column then b else b.check line column c)

def checkLine (b : BracketChecker) (line : Nat) (t : Text) (masked : Nat → Bool) : BracketChecker :=
  checkFrom masked line 0 t b

def depth (b : BracketChecker) : Nat := b.stack.length

def finish (b : BracketChecker) : List BracketProblem :=
  b.problems.reverse ++ b.stack.reverse.map fun o ↦ ⟨o.line, o.column, .unclosed o.char⟩

end BracketChecker

namespace Document

def isMasked (d : Document) (names : List String) (line length column : Nat) : Bool :=
  (d.labels line).any fun l ↦ !l.disabled && names.contains l.name && l.covers column length

/-- The problems in the lines of a text, but for those in labels of the given names. -/
def checkBrackets (d : Document) (source : List Text) (names : List String) :
    List BracketProblem :=
  (source.zipIdx.foldl (fun b (t, line) ↦ b.checkLine line t (d.isMasked names line t.length))
    ({} : BracketChecker)).finish

end Document

end Highlighter
