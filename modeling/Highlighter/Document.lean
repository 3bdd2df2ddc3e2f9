import Highlighter.Labeling
import Highlighter.Settings
import Highlighter.Refresh.Queue
import Highlighter.Refresh.Throttle

/-!
Labeled documents: the labels of all lines of a text that changes. A line is labeled again when its
text or what it inherits has changed, a bounded number of lines at a time; how the lines read now is
asked for only then.
-/

namespace Highlighter

structure LineRecord where
  text : Option Text := none
  labeled : LabeledLine := {}
  inherited : Continuations := []
  throttle : Throttle := {}
  deriving DecidableEq, Repr

namespace LineRecord

def isLabeled (r : LineRecord) : Bool := r.text.isSome

def isDeferred (r : LineRecord) : Bool := r.throttle.isDeferred

def offered (r : LineRecord) : Continuations := r.labeled.offered

end LineRecord

structure Document where
  scheme : Scheme
  settings : Settings
  records : List LineRecord
  queue : RefreshQueue

namespace Document

def lineCount (d : Document) : Nat := d.records.length

def record? (d : Document) (line : Nat) : Option LineRecord := d.records[line]?

def enqueue (d : Document) (line : Nat) : Document := { d with queue := (d.queue.push line).2 }

def refreshAll (d : Document) : Document :=
  { d with queue := d.queue.pushAll (List.range d.lineCount) }

/-- A document of unlabeled lines, all of which wait to be labeled. -/
def unlabeled (scheme : Scheme) (settings : Settings) (lineCount : Nat) : Document :=
  refreshAll ⟨scheme, settings, List.replicate lineCount {}, {}⟩

/-- There is always a line. -/
def new (scheme : Scheme) (settings : Settings) (lineCount : Nat) : Document :=
  unlabeled scheme settings (max lineCount 1)

def withScheme (d : Document) (scheme : Scheme) : Document :=
  unlabeled scheme d.settings d.lineCount

/-! ### Edits and requests -/

/-- Asks for a line to be labeled again, now or when its throttle allows it. -/
def requestRefresh (d : Document) (line : Nat) (now : Int) (force : Bool) : Document :=
  match d.record? line with
  | none => d
  | some r =>
    let (answer, throttle) := r.throttle.request now d.settings.minRefreshInterval force
    let d := { d with records := d.records.set line { r with throttle } }
    match answer with
    | .run => d.enqueue line
    | _ => d

/-- Makes place for new lines. The first of them inherits what the line before it offers. -/
def insertLines (d : Document) (first count : Nat) : Document :=
  if count = 0 then d
  else
    let first := min first d.lineCount
    let inherited : Continuations :=
      match first with
      | 0 => []
      | n + 1 => (d.records.getD n {}).offered
    let new : List LineRecord := { inherited } :: List.replicate (count - 1) {}
    { d with
      records := d.records.take first ++ new ++ d.records.drop first
      queue := (d.queue.move (.inserted first count)).pushAll (List.range' first count) }

/-- Forgets lines. The line after them has another predecessor now and is queued. -/
def removeLines (d : Document) (first count : Nat) : Document :=
  if count = 0 ∨ d.lineCount ≤ first then d
  else
    let stop := min (first + count) d.lineCount
    let rest := d.records.take first ++ d.records.drop stop
    let records := if rest.isEmpty then [{}] else rest
    let d := { d with records, queue := d.queue.move (.removed first (stop - first)) }
    if first < d.lineCount then d.enqueue first else d

def applyEdit (now : Int) (d : Document) : Edit → Document
  | .changed line => d.requestRefresh line now false
  | .inserted first count => d.insertLines first count
  | .removed first count => d.removeLines first count

def applyEdits (d : Document) (edits : List Edit) (now : Int) : Document :=
  edits.foldl (applyEdit now) d

/-! ### Labeling -/

/-- What a line inherits: what its predecessor offers if that is labeled, and else what it was
given before. -/
def inheritedBy (d : Document) (line : Nat) : Continuations :=
  match line with
  | 0 => []
  | n + 1 =>
    let previous := d.records.getD n {}
    if previous.isLabeled then previous.offered else (d.records.getD (n + 1) {}).inherited

/-- Labels a line that exists, and queues the next one if it inherits something else now. -/
def relabel (source : List Text) (now : Int) (d : Document) (line : Nat) : Document :=
  let r := d.records.getD line {}
  let text := source.getD line []
  let inherited := d.inheritedBy line
  let labeled := LabeledLine.ofText d.scheme d.settings.maxNesting inherited text
  let r := { r with text := some text, labeled, inherited, throttle := r.throttle.markRan now }
  let d := { d with records := d.records.set line r, queue := (d.queue.remove line).2 }
  match d.record? (line + 1) with
  | none => d
  | some next =>
    if next.inherited = labeled.offered then d
    else
      let next := { next with inherited := labeled.offered }
      { d with records := d.records.set (line + 1) next }.enqueue (line + 1)

def promote (d : Document) (now : Int) : Document :=
  let due := (List.range d.lineCount).filter fun line ↦
    (d.records.getD line {}).throttle.isDue now
  { d with
    records := d.records.map fun r ↦ { r with throttle := (r.throttle.takeDue now).2 }
    queue := d.queue.pushAll due }

/-- Labels one batch of queued lines and returns how many. Lines that are queued meanwhile wait
for the next frame. -/
def frame (d : Document) (now : Int) (source : List Text) : Nat × Document :=
  let d := d.promote now
  let (batch, queue) := d.queue.popMany d.settings.frameBudget
  let lines := batch.filter (fun line ↦ decide (line < d.lineCount))
  (lines.length, lines.foldl (relabel source now) { d with queue })

/-- Runs frames until one labels no line; at most `fuel` of them. -/
def frames (now : Int) (source : List Text) : Nat → Document → Nat × Document
  | 0, d => (0, d)
  | fuel + 1, d =>
    match d.frame now source with
    | (0, d) => (0, d)
    | (n, d) =>
      let (more, d) := frames now source fuel d
      (n + more, d)

/-- Runs frames until one labels no line. A frame either shortens the queue or hands a change to
the next line, so there are never more of them than the square of the number of lines. -/
def runUntilIdle (d : Document) (now : Int) (source : List Text) : Nat × Document :=
  frames now source (d.lineCount * d.lineCount + d.queue.size + 1) d

def refreshNow (d : Document) (line : Nat) (now : Int) (source : List Text) : Document :=
  if line < d.lineCount then relabel source now d line else d

/-! ### Queries -/

def labels (d : Document) (line : Nat) : List Label := (d.records.getD line {}).labeled.labels

def runs (d : Document) (line : Nat) : List Run := (d.records.getD line {}).labeled.runs

def colorAt (d : Document) (line index : Nat) : Color :=
  (Run.colorAt? (d.runs line) index).getD d.scheme.baseColor

def styledLine (d : Document) (line : Nat) (t : Text) : StyledLine :=
  Run.draw (d.runs line) t d.scheme.baseColor

def labelState (d : Document) (line : Nat) (name : String) : Label.State :=
  Label.state (d.labels line) name

def isLabeled (d : Document) (line : Nat) : Bool := (d.records.getD line {}).isLabeled

def isPending (d : Document) (line : Nat) : Bool := d.queue.contains line

def isDeferred (d : Document) (line : Nat) : Bool := (d.records.getD line {}).isDeferred

def hasPendingWork (d : Document) : Bool := !d.queue.isEmpty

def pendingCount (d : Document) : Nat := d.queue.size

/-- Whether no line waits, neither for a frame nor for its throttle. -/
def isSettled (d : Document) : Bool := d.queue.isEmpty && d.records.all (!·.isDeferred)

end Document

end Highlighter
