import DuckdbMl.Failure.Basic
import DuckdbMl.Pool.Async
import DuckdbMl.Transition.System
import Mathlib.Data.List.Range
import Mathlib.Logic.Function.Basic

/-!
# The pool of the Async adapter

The handlers of the scheduler run one at a time; the work of a request runs on the helper of its
slot, and the maintenance of slots on a helper of its own. A handler that reaches a partial
operation outside its domain (`Option.value_exn`, `Ivar.fill_exn`, `assert false`) has no next
state.

## Main definitions

* `Pool`: slots, requests, the queue, and what runs on the helpers
* `finish`, `stop`, `pump`, `dispatch`: the functions that the handlers share
-/

namespace DuckdbMl.AsyncPool

open Pool.Async (Answer combine)

/-- The adapter's own errors, and those of the library. -/
inductive Error
  | queueFull
  | poolShutdown
  | cancelled
  | reentrantCall
  | core (e : DuckdbMl.Failure)

abbrev Failure (X : Type) := Pool.Async.Failure Error X

inductive Lifecycle
  | accepting
  | stopping
  | stopped
  deriving DecidableEq, Repr

inductive RequestState
  | queued
  | dispatched
  | settling
  | finished
  deriving DecidableEq, Repr

inductive Execution
  | awaitingEntry
  | executing
  | returned
  deriving DecidableEq, Repr

structure Gate where
  execution : Execution
  cancelled : Bool
  deriving DecidableEq, Repr

inductive SlotState
  | idle
  | leased
  | needsClose
  | closing
  | needsConnect
  | connecting
  | closed
  | closeFailed
  deriving DecidableEq, Repr

inductive Operation
  | execute
  | transaction
  | query
  | foldRows
  | parquetFoldRows
  | parquetExport
  | typed
  deriving DecidableEq, Repr

/-- `X` are the exceptions and `V` the values of requests. -/
abbrev Result (X V : Type) := Except (Failure X) V

/-- The work of a request waits for its helper, is past the gate, or has ended. -/
inductive Stage (X V : Type)
  | waiting
  | running
  | ended (result : Result X V)

/-- What the helper of a slot has been given: the request, its operation and the connection. -/
structure Work (X V : Type) where
  request : ℕ
  operation : Operation
  owner : ℕ
  stage : Stage X V

/-- `owner` is the slot's connection. -/
structure Slot (X V : Type) where
  owner : Option ℕ
  state : SlotState
  lease : Option ℕ
  cleanupResult : Answer Error X
  work : Option (Work X V)

/-- `node` tells whether the request is an element of the queue, and `canceller` whether the
request's canceller is there and latched. -/
structure Request (X V : Type) where
  gate : Gate
  state : RequestState
  node : Bool
  operation : Option Operation
  canceller : Option Bool
  outcome : Option (Result X V)
  result : Option (Result X V)

/-- A job of the maintenance helper; the connection of a slot goes to its close. -/
inductive Maintenance
  | closeSlot (i c : ℕ)
  | connect (i : ℕ)
  | closeDatabase
  deriving DecidableEq, Repr

/-- The slot that a job is for. -/
def Maintenance.slot : Maintenance → Option ℕ
  | .closeSlot i _ | .connect i => some i
  | .closeDatabase => none

/-- What has happened, in the words of an observer: connections are numbered as they are opened. -/
inductive Event
  | opened (c : ℕ)
  | dispatched (r c : ℕ)
  | entered (r c : ℕ)
  | closing (c : ℕ)
  | closed (c : ℕ)
  | finished (r : ℕ)
  | closingDatabase
  deriving DecidableEq, Repr

/-- Slots and requests are numbered; `connections` is the number of slots, `admitted` that of the
requests so far and `opened` that of the connections so far. The log has the last event first. -/
structure Pool (X V : Type) where
  connections : ℕ
  queueCapacity : ℕ
  slots : ℕ → Slot X V
  requests : ℕ → Request X V
  admitted : ℕ
  opened : ℕ
  queue : List ℕ
  lifecycle : Lifecycle
  maintenanceBusy : Bool
  maintenance : Option Maintenance
  lifecycleResult : Answer Error X
  shutdownResult : Option (Answer Error X)
  log : List Event

variable {X V : Type}

namespace Pool

def modifySlot (i : ℕ) (f : Slot X V → Slot X V) (p : Pool X V) : Pool X V :=
  { p with slots := Function.update p.slots i (f (p.slots i)) }

def modifyRequest (r : ℕ) (f : Request X V → Request X V) (p : Pool X V) : Pool X V :=
  { p with requests := Function.update p.requests r (f (p.requests r)) }

def record (e : Event) (p : Pool X V) : Pool X V := { p with log := e :: p.log }

end Pool

/-! ### Requests -/

/-- A latched request is cancelled: its failures stay, as failures during the cancellation. -/
def classify (q : Request X V) (result : Result X V) : Result X V :=
  if !q.gate.cancelled then result
  else
    match result with
    | .ok _ | .error (.expected .cancelled) | .error (.expected (.core ⟨_, .cancelled⟩)) =>
      .error (.expected .cancelled)
    | .error failure => .error (.duringCancellation failure)

def Request.finish (result : Result X V) (q : Request X V) : Request X V :=
  { q with
    state := .finished, operation := none, canceller := none, outcome := none,
    result := some (classify q result) }

/-- The result is filled once. -/
def finish (r : ℕ) (result : Result X V) (p : Pool X V) : Option (Pool X V) :=
  match (p.requests r).result with
  | some _ => none
  | none => some ((p.modifyRequest r (Request.finish result)).record (.finished r))

def Request.latch (q : Request X V) : Request X V :=
  { q with gate.cancelled := true, canceller := q.canceller.map fun _ => true }

def latch (r : ℕ) (p : Pool X V) : Pool X V := p.modifyRequest r Request.latch

def Slot.release (s : Slot X V) : Slot X V := { s with lease := none }

def finishLease (i : ℕ) (p : Pool X V) : Option (Pool X V) :=
  match (p.slots i).lease with
  | none => some p
  | some r =>
    match (p.requests r).outcome with
    | none => none
    | some outcome => finish r outcome (p.modifySlot i Slot.release)

def Request.addCleanup (result : Answer Error X) (outcome : Result X V) (q : Request X V) :
    Request X V := { q with outcome := some (combine outcome result) }

def addLeaseCleanup (i : ℕ) (result : Answer Error X) (p : Pool X V) : Option (Pool X V) :=
  match (p.slots i).lease with
  | none => some p
  | some r =>
    match (p.requests r).outcome with
    | none => none
    | some outcome => some (p.modifyRequest r (Request.addCleanup result outcome))

/-! ### Maintenance -/

def Slot.become (state : SlotState) (s : Slot X V) : Slot X V := { s with state := state }

def Pool.start (job : Maintenance) (p : Pool X V) : Pool X V :=
  { p with maintenanceBusy := true, maintenance := some job }

/-- The maintenance helper has one job at a time. -/
def startMaintenance (job : Maintenance) (p : Pool X V) : Option (Pool X V) :=
  match p.maintenance with
  | some _ => none
  | none => some (p.start job)

def maintenanceJob (i : ℕ) (p : Pool X V) : Option (Pool X V) :=
  match (p.slots i).state with
  | .needsClose =>
    match (p.slots i).owner with
    | none => none
    | some c =>
      startMaintenance (.closeSlot i c)
        ((p.modifySlot i (Slot.become .closing)).record (.closing c))
  | .needsConnect => startMaintenance (.connect i) (p.modifySlot i (Slot.become .connecting))
  | .idle | .leased | .closing | .connecting | .closed | .closeFailed => none

def SlotState.needsMaintenance : SlotState → Bool
  | .needsClose | .needsConnect => true
  | _ => false

def SlotState.over : SlotState → Bool
  | .closed | .closeFailed => true
  | _ => false

def pump (p : Pool X V) : Option (Pool X V) :=
  if p.maintenanceBusy then some p
  else
    match (List.range p.connections).find? fun i => (p.slots i).state.needsMaintenance with
    | some i => maintenanceJob i p
    | none =>
      if p.lifecycle = .stopping &&
          (List.range p.connections).all fun i => (p.slots i).state.over then
        startMaintenance .closeDatabase (p.record .closingDatabase)
      else some p

/-! ### The end of the pool -/

def Request.leaveQueue (q : Request X V) : Request X V := { q with node := false }

/-- The first request leaves the queue. -/
def Pool.removeFirst (r : ℕ) (rest : List ℕ) (p : Pool X V) : Pool X V :=
  { p with queue := rest }.modifyRequest r Request.leaveQueue

/-- The requests in the queue are finished. -/
def clear : List ℕ → Pool X V → Option (Pool X V)
  | [], p => some p
  | r :: rest, p =>
    (finish r (.error (.expected .poolShutdown)) (p.removeFirst r rest)).bind (clear rest)

def latchLease (i : ℕ) (p : Pool X V) : Pool X V :=
  match (p.slots i).lease with
  | none => p
  | some r => latch r p

def stopSlot (i : ℕ) (p : Pool X V) : Option (Pool X V) :=
  let p := latchLease i p
  match (p.slots i).state with
  | .idle => some (p.modifySlot i (Slot.become .needsClose))
  | .needsConnect => finishLease i (p.modifySlot i (Slot.become .closed))
  | .leased | .needsClose | .closing | .connecting | .closed | .closeFailed => some p

/-- One slot after another. -/
def eachSlot (f : ℕ → Pool X V → Option (Pool X V)) : List ℕ → Pool X V → Option (Pool X V)
  | [], p => some p
  | i :: rest, p => (f i p).bind (eachSlot f rest)

def Pool.beginStop (p : Pool X V) : Pool X V := { p with lifecycle := .stopping }

def stop (p : Pool X V) : Option (Pool X V) :=
  match p.lifecycle with
  | .stopping | .stopped => some p
  | .accepting =>
    (clear p.queue p.beginStop).bind fun p =>
      (eachSlot stopSlot (List.range p.connections) p).bind pump

def Pool.addFailure (f : Failure X) (p : Pool X V) : Pool X V :=
  { p with lifecycleResult := combine p.lifecycleResult (.error f) }

def lifecycleFailure (f : Failure X) (p : Pool X V) : Option (Pool X V) :=
  (stop (p.addFailure f)).bind pump

def Slot.addFailure (f : Failure X) (s : Slot X V) : Slot X V :=
  { s with cleanupResult := combine s.cleanupResult (.error f) }

def slotFailure (i : ℕ) (f : Failure X) (p : Pool X V) : Option (Pool X V) :=
  (stop (p.modifySlot i (Slot.addFailure f))).bind pump

/-! ### Dispatch -/

def Slot.give (r c : ℕ) (operation : Operation) (s : Slot X V) : Slot X V :=
  { s with state := .leased, lease := some r, work := some ⟨r, operation, c, .waiting⟩ }

def Request.dispatch (q : Request X V) : Request X V :=
  { q with state := .dispatched, canceller := some false, operation := none }

/-- The helper of a slot has one work at a time. -/
def dispatch (i r : ℕ) (p : Pool X V) : Option (Pool X V) :=
  match (p.slots i).owner, (p.requests r).operation, (p.slots i).work with
  | some c, some operation, none =>
    some (((p.modifySlot i (Slot.give r c operation)).modifyRequest r Request.dispatch).record
      (.dispatched r c))
  | _, _, _ => none

def dispatchSlot (i : ℕ) (p : Pool X V) : Option (Pool X V) :=
  match (p.slots i).state with
  | .idle =>
    match p.queue with
    | [] => some p
    | r :: rest => dispatch i r (p.removeFirst r rest)
  | .leased | .needsClose | .closing | .needsConnect | .connecting | .closed | .closeFailed =>
    some p

def dispatchWaiting (p : Pool X V) : Option (Pool X V) :=
  match p.lifecycle with
  | .stopping | .stopped => some p
  | .accepting => eachSlot dispatchSlot (List.range p.connections) p

end DuckdbMl.AsyncPool
