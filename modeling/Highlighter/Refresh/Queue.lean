import Highlighter.Ascending
import Highlighter.Edit

/-!
The lines that wait for a refresh, in windows: a window collects lines until the queue is drained
down into it, and gives them back in line order.
-/

namespace Highlighter

structure RefreshQueue where
  /-- Sets of lines in increasing order, the next one to be drained first. -/
  windows : List (List Nat) := []
  /-- Whether the last window still takes lines. -/
  collecting : Bool := false
  deriving DecidableEq, Repr

namespace RefreshQueue

def new : RefreshQueue := {}

def toList (q : RefreshQueue) : List Nat := q.windows.flatten

def contains (q : RefreshQueue) (line : Nat) : Bool := q.windows.any (·.contains line)

def size (q : RefreshQueue) : Nat := q.toList.length

def isEmpty (q : RefreshQueue) : Bool := q.windows.all (·.isEmpty)

def insertLast (line : Nat) : List (List Nat) → List (List Nat)
  | [] => [[line]]
  | [window] => [Ascending.insert line window]
  | window :: next :: rest => window :: insertLast line (next :: rest)

def push (q : RefreshQueue) (line : Nat) : Bool × RefreshQueue :=
  if q.contains line then (false, q)
  else if q.collecting then (true, { q with windows := insertLast line q.windows })
  else (true, ⟨q.windows ++ [[line]], true⟩)

/-- Takes the first line of the first window that has one. Drawing from the last window ends it. -/
def popFrom (collecting : Bool) : List (List Nat) → Option Nat × RefreshQueue
  | [] => (none, ⟨[], collecting⟩)
  | [] :: rest => popFrom collecting rest
  | (line :: window) :: rest => (some line, ⟨window :: rest, collecting && !rest.isEmpty⟩)

def pop (q : RefreshQueue) : Option Nat × RefreshQueue := popFrom q.collecting q.windows

def popMany : Nat → RefreshQueue → List Nat × RefreshQueue
  | 0, q => ([], q)
  | n + 1, q =>
    match q.pop with
    | (none, q) => ([], q)
    | (some line, q) =>
      let (batch, q) := popMany n q
      (line :: batch, q)

def eraseFirst (line : Nat) : List (List Nat) → List (List Nat)
  | [] => []
  | window :: rest =>
    if window.contains line then window.erase line :: rest else window :: eraseFirst line rest

def remove (q : RefreshQueue) (line : Nat) : Bool × RefreshQueue :=
  if q.contains line then (true, { q with windows := eraseFirst line q.windows }) else (false, q)

/-- Moves the queued lines as an edit moves the lines of a document, whose numbers are far below
the size of a word; lines that it removes leave the queue. -/
def move (q : RefreshQueue) (e : Edit) : RefreshQueue :=
  { q with windows := q.windows.map (·.filterMap e.mapLine) }

/-- Moves the queued lines in machine words. Lines that wrap around are put in order again. -/
def shift (q : RefreshQueue) (e : Edit) : RefreshQueue :=
  { q with windows := q.windows.map fun window ↦ Ascending.ofList (window.filterMap e.mapWord) }

inductive Step where
  | push (line : Nat)
  | pop
  | contains (line : Nat)
  | remove (line : Nat)
  | move (e : Edit)
  | clear
  deriving DecidableEq, Repr

inductive Answer where
  | nothing
  | flag (b : Bool)
  | next (line : Option Nat)
  deriving DecidableEq, Repr

def perform (q : RefreshQueue) : Step → Answer × RefreshQueue
  | .push line =>
    let (b, q) := q.push line
    (.flag b, q)
  | .pop =>
    let (line, q) := q.pop
    (.next line, q)
  | .contains line => (.flag (q.contains line), q)
  | .remove line =>
    let (b, q) := q.remove line
    (.flag b, q)
  | .move e => (.nothing, q.shift e)
  | .clear => (.nothing, new)

def after (q : RefreshQueue) (steps : List Step) : RefreshQueue :=
  steps.foldl (fun q s ↦ (q.perform s).2) q

def overflows (q : RefreshQueue) : Step → Bool
  | .move e => q.toList.any e.overflows
  | _ => false

/-- As `perform`, with sums that are checked: one that is no machine word ends the program. -/
def perform? (q : RefreshQueue) (s : Step) : Option (Answer × RefreshQueue) :=
  if q.overflows s then none else some (q.perform s)

def after? (q : RefreshQueue) (steps : List Step) : Option RefreshQueue :=
  steps.foldlM (fun q s ↦ (q.perform? s).map Prod.snd) q

def pushAll (q : RefreshQueue) (lines : List Nat) : RefreshQueue :=
  lines.foldl (fun q line ↦ (q.push line).2) q

end RefreshQueue

end Highlighter
