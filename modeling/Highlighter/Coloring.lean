import Highlighter.Containment
import Highlighter.Scheme.Basic
import Highlighter.Styled

/-!
Colors of characters, and lines as runs of one color.
-/

namespace Highlighter

structure Run where
  start : Nat
  stop : Nat
  color : Color
  deriving DecidableEq, Repr

/-- Whether a label lies inside another one of the same scheme that takes precedence over it. -/
def Label.isOutrankedBy (l c : Label) (s : Scheme) : Bool :=
  l.scheme == s.name && c.scheme == l.scheme && l.containers.contains c.id &&
    match s.rankOf? c.name, s.rankOf? l.name with
    | some outer, some inner => decide (outer < inner)
    | _, _ => false

def Label.isShadowed (l : Label) (labels : List Label) (active : List Nat) (s : Scheme) : Bool :=
  labels.any fun c ↦ active.contains c.id && l.isOutrankedBy c s

namespace Scheme

/-- From the outside in, as embedded schemes are looked for. -/
def nestingLe (a b : Label) : Bool :=
  ((compare a.depth b.depth).then <| (compare a.level b.level).then
    (compare a.start b.start)).isLE

def descend (covering : List Label) (active : List Nat) (s : Scheme) (l : Label) : Scheme :=
  if l.scheme == s.name && active.contains l.id then
    match s.subScheme? l.name with
    | none => s
    | some sub => if l.isShadowed covering active s then s else sub
  else s

def schemeUnder (root : Scheme) (covering : List Label) (active : List Nat) : Scheme :=
  (Sorting.sort nestingLe covering).foldl (descend covering active) root

/-- Of labels of one rank the first to start wins. -/
def winnerLt (a b : Label) : Bool :=
  ((compare a.start b.start).then <| (compare a.order b.order).then (compare a.id b.id)).isLT

def winner? (labels : List Label) : Option Label :=
  labels.foldl
    (fun best l ↦ match best with
      | none => some l
      | some b => if winnerLt l b then some l else some b) none

def colorAt (root : Scheme) (covering : List Label) (active : List Nat) : Color :=
  let s := root.schemeUnder covering active
  let own := covering.filter fun l ↦ l.scheme == s.name && active.contains l.id
  match s.precedence.findSome? (fun entry ↦ winner? (own.filter (entry.contains ·.name))) with
  | some l => l.color
  | none => s.baseColor

end Scheme

namespace Run

def bounds (labels : List Label) (length : Nat) : List Nat :=
  Ascending.ofList (0 :: length :: labels.flatMap fun l ↦ [min l.start length, l.stopIn length])

/-- Runs before a further one, which is a part of the first of them if their colors agree. -/
def prepend (r : Run) : List Run → List Run
  | [] => [r]
  | next :: rest =>
    if r.color = next.color then ⟨r.start, next.stop, r.color⟩ :: rest else r :: next :: rest

def between (color : Nat → Color) : List Nat → List Run
  | [] => []
  | [_] => []
  | start :: stop :: rest => prepend ⟨start, stop, color start⟩ (between color (stop :: rest))

def ofLabels (labels : List Label) (length : Nat) (root : Scheme) : List Run :=
  if length = 0 then []
  else
    let active := Label.activeIds labels
    between (fun i ↦ root.colorAt (labels.filter (·.covers i length)) active) (bounds labels length)

/-- The number of the first run from `low` to before `high` that does not stop before a column,
and `high` if there is none. Runs are in order, so each look leaves half of them. -/
def search (runs : List Run) (index low high : Nat) : Nat :=
  if low < high then
    let middle := (low + high) / 2
    if runs[middle]?.any (fun r ↦ decide (r.stop ≤ index)) then search runs index (middle + 1) high
    else search runs index low middle
  else low
termination_by high - low

/-- The color of a character: that of the first run that does not stop before it, if it starts
early enough. -/
def colorAt? (runs : List Run) (index : Nat) : Option Color :=
  match runs[search runs index 0 runs.length]? with
  | none => none
  | some r => if r.start ≤ index then some r.color else none

/-- A text drawn with the colors of runs, and the fallback color where they have none. -/
def drawFrom (runs : List Run) (fallback : Color) (i : Nat) : Text → StyledLine → StyledLine
  | [], line => line
  | c :: t, line =>
    drawFrom runs fallback (i + 1) t (line.push ⟨[c], (colorAt? runs i).getD fallback⟩)

def draw (runs : List Run) (t : Text) (fallback : Color) : StyledLine :=
  drawFrom runs fallback 0 t .empty

end Run

end Highlighter
