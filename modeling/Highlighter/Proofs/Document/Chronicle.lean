import Highlighter.Proofs.Document.Runs

/-!
Chronicles: documents with what has happened to each of their lines. What has happened to a line
moves with its record when other lines come and go; the documents are the same as without it.
-/

namespace Highlighter

/-- What puts a line into the queue, other than a request that its throttle lets through. -/
inductive Cause where
  /-- A request that its throttle was not asked about. -/
  | forced
  /-- A refresh of all lines. -/
  | everywhere
  /-- The removal of the lines above it. -/
  | uncovered
  /-- A labeling of the line above it, after which it inherits something else. -/
  | handed
  deriving DecidableEq, Repr

inductive Event where
  /-- A refresh is requested, without force. -/
  | requested (now : ℤ)
  /-- The line gets into the queue, in which it was not. -/
  | queued (cause : Cause)
  /-- The line is labeled, directly or by a frame. -/
  | labeled (now : ℤ) (directly : Bool)
  deriving DecidableEq, Repr

namespace Event

def labeledAt? : Event → Option ℤ
  | requested _ => none
  | queued _ => none
  | labeled now _ => some now

/-- When a line was labeled last. -/
def lastLabeled? (history : List Event) : Option ℤ := history.findSome? labeledAt?

end Event

/-- A document with the history of each line, the latest event first. -/
structure Chronicle where
  document : Document
  histories : List (List Event)

namespace Chronicle

def new (scheme : Scheme) (settings : Settings) (lineCount : ℕ) : Chronicle :=
  ⟨.new scheme settings lineCount, List.replicate (max lineCount 1) []⟩

def note (c : Chronicle) (line : ℕ) (e : Event) : Chronicle :=
  { c with histories := c.histories.modify line (e :: ·) }

/-- Notes which lines got into the queue that were not in it before. -/
def noteQueued (c : Chronicle) (cause : Cause) (before : RefreshQueue) : Chronicle :=
  { c with
    histories := c.histories.mapIdx fun line history ↦
      if c.document.isPending line && !before.contains line then .queued cause :: history
      else history }

def setScheme (c : Chronicle) (scheme : Scheme) : Chronicle :=
  ⟨c.document.withScheme scheme, List.replicate c.document.lineCount []⟩

def request (c : Chronicle) (line : ℕ) (now : ℤ) (force : Bool) : Chronicle :=
  let c' := { c with document := c.document.requestRefresh line now force }
  if force then c'.noteQueued .forced c.document.queue else c'.note line (.requested now)

def insertLines (c : Chronicle) (first count : ℕ) : Chronicle :=
  ⟨c.document.insertLines first count,
    c.histories.take first ++ List.replicate count [] ++ c.histories.drop first⟩

def removeLines (c : Chronicle) (first count : ℕ) : Chronicle :=
  if count = 0 ∨ c.document.lineCount ≤ first then c
  else
    let stop := min (first + count) c.document.lineCount
    let rest := c.histories.take first ++ c.histories.drop stop
    let c' : Chronicle :=
      ⟨c.document.removeLines first count, if rest.isEmpty then [[]] else rest⟩
    c'.noteQueued .uncovered (c.document.queue.move (.removed first (stop - first)))

def applyEdit (now : ℤ) (c : Chronicle) : Edit → Chronicle
  | .changed line => c.request line now false
  | .inserted first count => c.insertLines first count
  | .removed first count => c.removeLines first count

def refreshAll (c : Chronicle) : Chronicle :=
  { c with document := c.document.refreshAll }.noteQueued .everywhere c.document.queue

def relabel (source : List Text) (now : ℤ) (directly : Bool) (c : Chronicle) (line : ℕ) :
    Chronicle :=
  let c' := { c with document := c.document.relabel source now line }
  (c'.note line (.labeled now directly)).noteQueued .handed c.document.queue

def frame (c : Chronicle) (now : ℤ) (source : List Text) : Chronicle :=
  (c.document.batch now).foldl (relabel source now false)
    { c with document := c.document.drawn now }

def frames (now : ℤ) (source : List Text) : ℕ → Chronicle → Chronicle
  | 0, c => c
  | fuel + 1, c =>
    if c.document.batch now = [] then c.frame now source
    else frames now source fuel (c.frame now source)

def runUntilIdle (c : Chronicle) (now : ℤ) (source : List Text) : Chronicle :=
  let d := c.document
  frames now source (d.lineCount * d.lineCount + d.queue.size + 1) c

def refreshNow (c : Chronicle) (line : ℕ) (now : ℤ) (source : List Text) : Chronicle :=
  if line < c.document.lineCount then relabel source now true c line else c

def perform (c : Chronicle) : Document.Step → Chronicle
  | .setScheme scheme => c.setScheme scheme
  | .apply edits now => edits.foldl (applyEdit now) c
  | .request line now force => c.request line now force
  | .refreshAll => c.refreshAll
  | .refreshNow line now source => c.refreshNow line now source
  | .frame now source => c.frame now source
  | .runUntilIdle now source => c.runUntilIdle now source

def after (c : Chronicle) (steps : List Document.Step) : Chronicle := steps.foldl perform c

/-! ### Which lines a cause puts into the queue -/

section Causes

variable {d : Document} {k line first count : ℕ} {now : ℤ} {source : List Text}

theorem eq_of_forced (h : (d.requestRefresh line now true).isPending k = true)
    (hb : ¬d.isPending k = true) : k = line :=
  ((Document.isPending_requestRefresh.1 h).resolve_left hb).1

theorem eq_of_uncovered (hn : ¬(count = 0 ∨ d.lineCount ≤ first))
    (h : (d.removeLines first count).isPending k = true)
    (hb : k ∉ (d.queue.move
      (.removed first (min (first + count) d.lineCount - first))).toList) : k = first :=
  (((Document.isPending_removeLines_iff hn).1 h).resolve_right hb).1

theorem inherits_of_handed (h : (d.relabel source now line).isPending k = true)
    (hb : ¬d.isPending k = true) :
    k = line + 1 ∧ ∃ next, d.record? k = some next ∧
      next.inherited ≠ (d.labelNow source now line).offered := by
  refine ((Document.isPending_relabel source now).1 h).resolve_left fun hq ↦ hb ?_
  rw [RefreshQueue.toList_remove] at hq
  exact Document.isPending_iff.2 (List.mem_of_mem_erase hq)

end Causes

/-! ### The documents are the same -/

@[simp]
theorem document_note (c : Chronicle) (line : ℕ) (e : Event) :
    (c.note line e).document = c.document := rfl

@[simp]
theorem document_noteQueued (c : Chronicle) (cause : Cause) (before : RefreshQueue) :
    (c.noteQueued cause before).document = c.document := rfl

@[simp]
theorem document_request (c : Chronicle) (line : ℕ) (now : ℤ) (force : Bool) :
    (c.request line now force).document = c.document.requestRefresh line now force := by
  cases force <;> rfl

theorem document_removeLines (c : Chronicle) (first count : ℕ) :
    (c.removeLines first count).document = c.document.removeLines first count := by
  rw [removeLines]
  split
  · next h => rw [Document.removeLines, if_pos h]
  · rfl

theorem document_foldl_applyEdit (c : Chronicle) (now : ℤ) (edits : List Edit) :
    (edits.foldl (applyEdit now) c).document = c.document.applyEdits edits now := by
  induction edits generalizing c with
  | nil => rfl
  | cons e edits ih =>
    rw [List.foldl_cons, ih]
    cases e with
    | changed line => simp [applyEdit, Document.applyEdits, Document.applyEdit]
    | inserted first count => rfl
    | removed first count =>
      exact congrArg (List.foldl _ · edits) (c.document_removeLines first count)

theorem document_foldl_relabel (source : List Text) (now : ℤ) (directly : Bool) (c : Chronicle)
    (lines : List ℕ) :
    (lines.foldl (relabel source now directly) c).document =
      lines.foldl (Document.relabel source now) c.document := by
  induction lines generalizing c with
  | nil => rfl
  | cons line lines ih => exact ih _

@[simp]
theorem document_frame (c : Chronicle) (now : ℤ) (source : List Text) :
    (c.frame now source).document = (c.document.frame now source).2 := by
  rw [frame, document_foldl_relabel, Document.frame_eq]

theorem document_frames (c : Chronicle) (now : ℤ) (source : List Text) (fuel : ℕ) :
    (frames now source fuel c).document = (Document.frames now source fuel c.document).2 := by
  induction fuel generalizing c with
  | zero => rfl
  | succ fuel ih =>
    have hframe := c.document.frame_eq now source
    rw [frames, Document.frames]
    split
    · next hb =>
      rw [hb] at hframe
      rw [hframe, document_frame, hframe]
      rfl
    · next hb =>
      obtain ⟨n, hn⟩ := Nat.exists_eq_add_one_of_ne_zero (mt List.length_eq_zero_iff.1 hb)
      rw [hn] at hframe
      rw [ih, document_frame, hframe]
      rfl

theorem document_perform (c : Chronicle) (a : Document.Step) :
    (c.perform a).document = c.document.perform a := by
  cases a with
  | setScheme scheme => rfl
  | apply edits now => exact c.document_foldl_applyEdit now edits
  | request line now force => exact c.document_request line now force
  | refreshAll => rfl
  | refreshNow line now source =>
    rw [perform, refreshNow, Document.perform, Document.refreshNow]
    split <;> rfl
  | frame now source => exact c.document_frame now source
  | runUntilIdle now source => exact c.document_frames now source _

theorem document_after (c : Chronicle) (steps : List Document.Step) :
    (c.after steps).document = c.document.after steps := by
  induction steps generalizing c with
  | nil => rfl
  | cons a steps ih =>
    rw [after, List.foldl_cons, ← after, ih, document_perform]
    rfl

end Chronicle

end Highlighter
