import Highlighter.Coloring
import Highlighter.Regions

/-!
The labels of a whole line: those of its scheme, and in the regions that embed another scheme
those of that scheme, to a bounded depth of nesting.
-/

namespace Highlighter

structure Stretch where
  start : Nat
  stop : Stop
  scheme : Scheme

namespace Stretch

/-- Whether there is anything to label: a character, or an empty line that regions run through. -/
def isLabeled (s : Stretch) (length : Nat) : Bool :=
  decide (s.start < s.stop.resolve length) || (s.start == 0 && s.stop.isOpen)

def textIn (s : Stretch) (line : Text) : Text :=
  (line.drop s.start).take (s.stop.resolve line.length - s.start)

end Stretch

namespace Label

def number (first : Nat) : List Label → List Label
  | [] => []
  | l :: rest => { l with id := first } :: number (first + 1) rest

/-- The stretches of embedded text in the labels whose ids are at least `first`. -/
def embedded (labels : List Label) (first : Nat) (s : Scheme) : List Stretch :=
  let active := activeIds labels
  labels.filterMap fun l ↦
    if first ≤ l.id then
      match s.subScheme? l.name with
      | none => none
      | some sub =>
        if active.contains l.id && !l.isShadowed labels active s then some ⟨l.start, l.stop, sub⟩
        else none
    else none

/-- Adds the labels of a stretch, and of the text embedded in it, to those found before it.
`nesting` is the number of levels that may still follow. -/
def addStretch (line : Text) (inherited : Continuations) (nesting level : Nat) (s : Stretch)
    (labels : List Label) : List Label :=
  if s.isLabeled line.length then
    match s.scheme.regions (min s.start line.length) s.stop (s.textIn line) inherited level with
    | [] => labels
    | l :: rest =>
      let placed := place (labels ++ number labels.length (l :: rest)) line.length
      match nesting with
      | 0 => placed
      | n + 1 =>
        (embedded placed labels.length s.scheme).foldl
          (fun labels inner ↦ addStretch line inherited n (level + 1) inner labels) placed
  else labels

end Label

def Scheme.labelLine (s : Scheme) (line : Text) (inherited : Continuations) (maxNesting : Nat) :
    List Label :=
  Label.addStretch line inherited maxNesting 0 ⟨0, .lineEnd, s⟩ []

structure LabeledLine where
  labels : List Label := []
  runs : List Run := []
  deriving DecidableEq, Repr

namespace LabeledLine

def offered (l : LabeledLine) : Continuations := Label.offered l.labels

def ofText (s : Scheme) (maxNesting : Nat) (inherited : Continuations) (line : Text) :
    LabeledLine :=
  let labels := s.labelLine line inherited maxNesting
  { labels, runs := Run.ofLabels labels line.length s }

end LabeledLine

/-- The lines of a text from top to bottom, each with what the line before it hands over. -/
def Scheme.labelLines (s : Scheme) (maxNesting : Nat) (inherited : Continuations) :
    List Text → List LabeledLine
  | [] => []
  | line :: rest =>
    let labeled := LabeledLine.ofText s maxNesting inherited line
    labeled :: s.labelLines maxNesting labeled.offered rest

end Highlighter
