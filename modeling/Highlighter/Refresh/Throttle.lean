/-!
How often one line is refreshed: a request that comes too soon after the last refresh is put off
until the interval is over, and further ones are merged with it. Instants are milliseconds.
-/

namespace Highlighter

structure Throttle where
  lastRun : Option Int := none
  deferredUntil : Option Int := none
  deriving DecidableEq, Repr

namespace Throttle

inductive Answer where
  | run
  | deferred (due : Int)
  | coalesced
  deriving DecidableEq, Repr

def new : Throttle := {}

def isDeferred (t : Throttle) : Bool := t.deferredUntil.isSome

def hasRun (t : Throttle) : Bool := t.lastRun.isSome

/-- A clock that went back counts as one that stood still. -/
def request (t : Throttle) (now : Int) (interval : Nat) (force : Bool) : Answer × Throttle :=
  match t.lastRun with
  | none => (.run, t)
  | some last =>
    if force || decide (interval ≤ (now - last).toNat) then (.run, t)
    else if t.isDeferred then (.coalesced, t)
    else (.deferred (last + interval), { t with deferredUntil := some (last + interval) })

def markRan (_ : Throttle) (now : Int) : Throttle := { lastRun := some now }

def isDue (t : Throttle) (now : Int) : Bool :=
  match t.deferredUntil with
  | none => false
  | some due => decide (due ≤ now)

/-- Takes up the request that was put off, once it is due. -/
def takeDue (t : Throttle) (now : Int) : Bool × Throttle :=
  if t.isDue now then (true, { t with deferredUntil := none }) else (false, t)

inductive Step where
  | request (now : Int) (interval : Nat) (force : Bool)
  | markRan (now : Int)
  | takeDue (now : Int)
  deriving DecidableEq, Repr

inductive Outcome where
  | nothing
  | answered (a : Answer)
  | taken (b : Bool)
  deriving DecidableEq, Repr

def perform (t : Throttle) : Step → Outcome × Throttle
  | .request now interval force =>
    let (a, t) := t.request now interval force
    (.answered a, t)
  | .markRan now => (.nothing, t.markRan now)
  | .takeDue now =>
    let (b, t) := t.takeDue now
    (.taken b, t)

end Throttle

end Highlighter
