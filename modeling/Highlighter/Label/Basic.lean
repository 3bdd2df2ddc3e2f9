import Highlighter.Color

/-!
Labels: the occurrences of named parts of a language in one line.
-/

namespace Highlighter

inductive Stop where
  | column (n : Nat)
  | lineEnd
  deriving DecidableEq, Repr, Inhabited

namespace Stop

def resolve : Stop → Nat → Nat
  | column n, length => min n length
  | lineEnd, length => length

def isOpen : Stop → Bool
  | column _ => false
  | lineEnd => true

/-- Columns by number, and the end of the line after all of them. -/
def compare : Stop → Stop → Ordering
  | column m, column n => Ord.compare m n
  | column _, lineEnd => .lt
  | lineEnd, column _ => .gt
  | lineEnd, lineEnd => .eq

def min : Stop → Stop → Stop
  | column m, column n => column (Nat.min m n)
  | column m, lineEnd => column m
  | lineEnd, s => s

end Stop

inductive Label.Kind where
  | opening
  | closing
  | single
  /-- A region that was opened on an earlier line. -/
  | continued
  deriving DecidableEq, Repr, Inhabited

structure Label where
  id : Nat := 0
  name : String
  scheme : String
  start : Nat
  stop : Stop
  kind : Label.Kind
  /-- From the opening delimiter to the end of the closing one, whatever part is colored. -/
  matched : Nat × Nat
  color : Color := .plain
  /-- The place of its rule in the scheme. -/
  order : Nat := 0
  /-- How many schemes its own one is embedded in. -/
  level : Nat := 0
  multiLine : Bool := false
  requires : Option String := none
  /-- The ids of the labels around it, in increasing order. -/
  containers : List Nat := []
  depth : Nat := 0
  /-- Whether it counts for nothing, since no label of the required name is around it. -/
  disabled : Bool := false
  deriving DecidableEq, Repr

namespace Label

/-- A label with nothing but its place, which is taken for all that was matched. -/
def plain (name scheme : String) (start : Nat) (stop : Stop) (kind : Kind) : Label :=
  let matchedEnd := match stop with
    | .column n => n
    | .lineEnd => start
  { name, scheme, start, stop, kind, matched := (start, matchedEnd) }

structure Key where
  scheme : String
  name : String
  deriving DecidableEq, Repr

def Key.lt (a b : Key) : Bool :=
  decide (a.scheme < b.scheme) || (a.scheme == b.scheme && decide (a.name < b.name))

def key (l : Label) : Key := ⟨l.scheme, l.name⟩

/-- The column after its last character in a line of the given length. -/
def stopIn (l : Label) (length : Nat) : Nat := max (l.stop.resolve length) (min l.start length)

theorem stopIn_le (l : Label) (length : Nat) : l.stopIn length ≤ length := by
  have : l.stop.resolve length ≤ length := by
    cases l.stop with
    | column n => exact Nat.min_le_right n length
    | lineEnd => exact Nat.le_refl length
  rw [stopIn]
  omega

def lengthIn (l : Label) (length : Nat) : Nat := l.stopIn length - min l.start length

def isEmptyIn (l : Label) (length : Nat) : Bool := l.lengthIn length == 0

def covers (l : Label) (index length : Nat) : Bool :=
  decide (l.start ≤ index) && decide (index < l.stopIn length)

def isRegion (l : Label) : Bool :=
  match l.kind with
  | .opening | .continued => true
  | .closing | .single => false

def isOpenRegion (l : Label) : Bool := l.isRegion && l.stop.isOpen

def continuation (l : Label) : Label where
  name := l.name
  scheme := l.scheme
  start := 0
  stop := .lineEnd
  kind := .continued
  matched := (0, 0)
  color := l.color
  order := l.order
  level := l.level
  multiLine := l.multiLine
  requires := l.requires

def withName (labels : List Label) (name : String) : List Label := labels.filter (·.name == name)

inductive State where
  | absent
  | matched
  | continuing
  | ended
  deriving DecidableEq, Repr

/-- What a line does with the labels of one name: leaves one open, ends one from the line before,
or only holds some. -/
def state (labels : List Label) (name : String) : State :=
  let named := withName labels name
  if named.any isOpenRegion then .continuing
  else if named.any (·.kind == .continued) then .ended
  else if named.isEmpty then .absent
  else .matched

def namesOf (labels : List Label) : List String := (labels.map name).eraseDups

end Label

end Highlighter
