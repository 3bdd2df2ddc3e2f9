import Highlighter.Label.Basic

/-!
Regions handed from a line to the next one.
-/

namespace Highlighter

/-- Regions by their keys, one for a key, in the order of the keys. -/
abbrev Continuations := List Label

namespace Continuations

def find? (cs : Continuations) (k : Label.Key) : Option Label := List.find? (·.key == k) cs

/-- Adds a region, in place of the one of its key if `replace` is set. -/
def add (replace : Bool) (l : Label) : Continuations → Continuations
  | [] => [l]
  | m :: rest =>
    if l.key.lt m.key then l :: m :: rest
    else if l.key = m.key then (if replace then l else m) :: rest
    else m :: add replace l rest

def ofList (labels : List Label) : Continuations := labels.foldl (fun cs l ↦ add true l cs) []

end Continuations

namespace Label

/-- Whether a label of a line lies inside another region of the label's own scheme. -/
def isNestedIn (l : Label) (labels : List Label) : Bool :=
  l.containers.any fun id ↦
    match labels.reverse.find? (·.id == id) with
    | none => false
    | some c => c.scheme == l.scheme && c.isRegion

def isOfferedBy (l : Label) (labels : List Label) : Bool :=
  l.isOpenRegion && l.multiLine && !l.disabled && !l.isNestedIn labels

/-- The regions that a line with these labels leaves open for the next one. Of several with one
key the first counts. -/
def offered (labels : List Label) : Continuations :=
  (labels.filter (·.isOfferedBy labels)).foldl
    (fun cs l ↦ Continuations.add false l.continuation cs) []

end Label

end Highlighter
