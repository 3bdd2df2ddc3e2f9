import Highlighter.Buffer.Change
import Highlighter.Document

/-!
Sessions: a buffer that is edited and the labeled document that follows it.
-/

namespace Highlighter

structure Session where
  buffer : Buffer
  document : Document

namespace Session

/-- What can happen in a session. Times are milliseconds and may go back. -/
inductive Step where
  | change (c : Buffer.Change)
  | apply (now : Int)
  | request (line : Nat) (now : Int) (force : Bool)
  | refreshAll
  | refreshNow (line : Nat) (now : Int)
  | frame (now : Int)
  | runUntilIdle (now : Int)
  deriving DecidableEq, Repr

inductive Answer where
  | nothing
  | changed (a : Buffer.Answer)
  | applied (edits : List Edit)
  | labeled (count : Nat)
  deriving DecidableEq, Repr

/-- A session on a text none of whose lines is labeled yet. -/
def start (scheme : Scheme) (settings : Settings) (t : Text) : Session :=
  let b := Buffer.ofText t
  ⟨b, .new scheme settings b.lineCount⟩

def perform (s : Session) : Step → Answer × Session
  | .change c =>
    let (a, b) := s.buffer.perform c
    (.changed a, { s with buffer := b })
  | .apply now =>
    let (edits, b) := s.buffer.takeEdits
    (.applied edits, ⟨b, s.document.applyEdits edits now⟩)
  | .request line now force =>
    (.nothing, { s with document := s.document.requestRefresh line now force })
  | .refreshAll => (.nothing, { s with document := s.document.refreshAll })
  | .refreshNow line now =>
    (.nothing, { s with document := s.document.refreshNow line now s.buffer.lines })
  | .frame now =>
    let (n, d) := s.document.frame now s.buffer.lines
    (.labeled n, { s with document := d })
  | .runUntilIdle now =>
    let (n, d) := s.document.runUntilIdle now s.buffer.lines
    (.labeled n, { s with document := d })

/-- Whether a step looks at the lines of the buffer. -/
def Step.readsLines : Step → Bool
  | change _ => false
  | apply _ => false
  | request _ _ _ => false
  | refreshAll => false
  | refreshNow _ _ => true
  | frame _ => true
  | runUntilIdle _ => true

/-- Steps of which none looks at the lines before the document has been told of all edits. -/
def Orderly (s : Session) : List Step → Prop
  | [] => True
  | a :: rest =>
    (a.readsLines = true → s.buffer.pending = []) ∧ Orderly (s.perform a).2 rest

def after (s : Session) (steps : List Step) : Session := steps.foldl (fun s a ↦ (s.perform a).2) s

end Session

end Highlighter
