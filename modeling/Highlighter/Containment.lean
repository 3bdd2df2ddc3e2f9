import Highlighter.Ascending
import Highlighter.Sorting
import Highlighter.Label.Basic

/-!
Overlapping labels: which labels of a line lie inside which, and which of them count.
-/

namespace Highlighter.Label

/-- The order in which labels are placed: by start, and of those that start together the longest
first. Scheme, rule and id decide the rest. -/
def placing (a b : Label) : Ordering :=
  (compare a.start b.start).then <| (Stop.compare b.stop a.stop).then <|
    (compare a.level b.level).then <| (compare a.order b.order).then (compare a.id b.id)

/-- Whether other labels can lie inside it: words of one character hold nothing. -/
def isContainer (l : Label) (length : Nat) : Bool :=
  l.kind != .closing && (l.stop.isOpen || decide (1 < l.lengthIn length))

def holds (c : Label) (length : Nat) (l : Label) : Bool :=
  c.isContainer length && c.covers l.start length

/-- A label inside those of the labels before it that hold it, and no longer than any of these. -/
def placeAfter (length : Nat) (before : List Label) (l : Label) : Label :=
  let around := before.filter (·.holds length l)
  { l with
    stop := around.foldl (fun s c ↦ s.min c.stop) l.stop
    containers := Ascending.ofList (around.map id)
    depth := around.length
    disabled := l.requires.any (fun name ↦ !around.any (·.name == name)) }

def place (labels : List Label) (length : Nat) : List Label :=
  (Sorting.sort (fun a b ↦ (placing a b).isLE) labels).foldl
    (fun placed l ↦ placed ++ [placeAfter length placed l]) []

/-- The ids of the labels that count: not disabled, nor inside one that does not count. -/
def activeIds (labels : List Label) : List Nat :=
  labels.foldl
    (fun active l ↦
      if !l.disabled && l.containers.all active.contains then active ++ [l.id] else active) []

end Highlighter.Label
