import DuckdbMl.AsyncPool.State

/-!
# The handlers of the pool

## Main definitions

* `admitRequest`, `cancel`, `shutdown`: the calls of the users
* `enter`, `settle`, `slotClosed`, `slotConnected`, `databaseClosed`: what the helpers do, and the
  handlers of its completions
* `system`: a pool under any order of these; its failed state is `none`
-/

namespace DuckdbMl.AsyncPool

open Pool.Async (Answer combine)

variable {X V : Type}

/-! ### Calls of the users -/

def newRequest (operation : Operation) : Request X V where
  gate := ⟨.awaitingEntry, false⟩
  state := .queued
  node := false
  operation := some operation
  canceller := none
  outcome := none
  result := none

def Request.joinQueue (q : Request X V) : Request X V := { q with node := true }

def Pool.insertLast (r : ℕ) (p : Pool X V) : Pool X V :=
  { p with queue := p.queue ++ [r] }.modifyRequest r Request.joinQueue

def Pool.idleSlot (p : Pool X V) : Option ℕ :=
  if p.queue.isEmpty then
    (List.range p.connections).find? fun i => (p.slots i).state = .idle
  else none

def Pool.addRequest (operation : Operation) (p : Pool X V) : Pool X V :=
  { p with
    requests := Function.update p.requests p.admitted (newRequest operation)
    admitted := p.admitted + 1 }

/-- `inCallback` tells whether the call comes from a callback of a worker. -/
def admitRequest (inCallback : Bool) (operation : Operation) (p : Pool X V) :
    Option (Except Error ℕ × Pool X V) :=
  if inCallback then some (.error .reentrantCall, p)
  else
    match p.lifecycle with
    | .stopping | .stopped => some (.error .poolShutdown, p)
    | .accepting =>
      if p.idleSlot.isNone && p.queueCapacity ≤ p.queue.length then some (.error .queueFull, p)
      else
        (match p.idleSlot with
        | some i => dispatch i p.admitted (p.addRequest operation)
        | none => some ((p.addRequest operation).insertLast p.admitted)).map
          fun p' => (.ok p.admitted, p')

inductive CancelAck
  | requested
  | alreadyFinished
  deriving DecidableEq, Repr

/-- A request can leave the queue only while it is an element of it. -/
def leaveQueue (r : ℕ) (p : Pool X V) : Option (Pool X V) :=
  if (p.requests r).node && r ∈ p.queue then some (p.removeFirst r (p.queue.erase r)) else none

def cancel (inCallback : Bool) (r : ℕ) (p : Pool X V) :
    Option (Except Error CancelAck × Pool X V) :=
  if inCallback then some (.error .reentrantCall, p)
  else
    match (p.requests r).state with
    | .finished => some (.ok .alreadyFinished, p)
    | .queued =>
      ((leaveQueue r p).bind fun p => finish r (.error (.expected .cancelled)) (latch r p)).map
        fun p => (.ok .requested, p)
    | .dispatched | .settling => some (.ok .requested, latch r p)

def shutdown (inCallback : Bool) (p : Pool X V) : Option (Except Error Unit × Pool X V) :=
  if inCallback then some (.error .reentrantCall, p)
  else (stop p).map fun p => (.ok (), p)

/-! ### The work of a request -/

def Work.reach (stage : Stage X V) (w : Work X V) : Work X V := { w with stage := stage }

def Slot.reach (stage : Stage X V) (s : Slot X V) : Slot X V :=
  { s with work := s.work.map (Work.reach stage) }

def Request.execution (execution : Execution) (q : Request X V) : Request X V :=
  { q with gate.execution := execution }

/-- The worker passes the gate, or is refused; then it has returned at once. -/
def enter (i : ℕ) (w : Work X V) (p : Pool X V) : Option (Pool X V) :=
  match (p.requests w.request).gate.execution with
  | .awaitingEntry =>
    if (p.requests w.request).gate.cancelled then
      some ((p.modifySlot i (Slot.reach (.ended (.error (.expected .cancelled))))).modifyRequest
        w.request (Request.execution .returned))
    else
      some (((p.modifySlot i (Slot.reach .running)).modifyRequest w.request
        (Request.execution .executing)).record (.entered w.request w.owner))
  | .executing | .returned => none

/-- How an operation ends. -/
inductive Ending (X V : Type)
  | value (v : V)
  | error (e : DuckdbMl.Failure)
  | raised (x : X)

def Ending.result : Ending X V → Result X V
  | .value v => .ok v
  | .error e => .error (.expected (.core e))
  | .raised x => .error (.raised x)

def leave (i : ℕ) (w : Work X V) (e : Ending X V) (p : Pool X V) : Pool X V :=
  (p.modifySlot i (Slot.reach (.ended e.result))).modifyRequest w.request
    (Request.execution .returned)

def Slot.finishWork (s : Slot X V) : Slot X V := { s with work := none }

def Request.settle (result : Result X V) (q : Request X V) : Request X V :=
  { q with state := .settling, outcome := some result }

/-- The connection of a slot is used again only after an execution that has succeeded, and whose
request has not been cancelled. -/
def reusable (w : Work X V) (result : Result X V) (p : Pool X V) : Bool :=
  match w.operation, result, p.lifecycle with
  | .execute, .ok _, .accepting => !(p.requests w.request).gate.cancelled
  | _, _, _ => false

def settle (i : ℕ) (w : Work X V) (result : Result X V) (p : Pool X V) : Option (Pool X V) :=
  let p := (p.modifySlot i Slot.finishWork).modifyRequest w.request (Request.settle result)
  if reusable w result p then
    (finishLease i (p.modifySlot i (Slot.become .idle))).bind dispatchWaiting
  else pump (p.modifySlot i (Slot.become .needsClose))

/-! ### The maintenance of slots -/

/-- The maintenance helper has finished its job. -/
def Pool.finishMaintenance (p : Pool X V) : Pool X V :=
  { p with maintenanceBusy := false, maintenance := none }

def Slot.disown (s : Slot X V) : Slot X V := { s with owner := none }

def slotClosed (i c : ℕ) (result : Answer Error X) (p : Pool X V) : Option (Pool X V) :=
  (addLeaseCleanup i result (p.finishMaintenance.record (.closed c))).bind fun p =>
    (match result with
    | .error failure =>
      (slotFailure i failure (p.modifySlot i (Slot.become .closeFailed))).bind (finishLease i)
    | .ok () =>
      let p := p.modifySlot i Slot.disown
      match p.lifecycle with
      | .accepting => some (p.modifySlot i (Slot.become .needsConnect))
      | .stopping | .stopped => finishLease i (p.modifySlot i (Slot.become .closed))).bind pump

def Slot.own (c : ℕ) (s : Slot X V) : Slot X V := { s with owner := some c }

/-- A new connection is the slot's. -/
def Pool.connect (i : ℕ) (p : Pool X V) : Pool X V :=
  ({ p with opened := p.opened + 1 }.modifySlot i (Slot.own p.opened)).record (.opened p.opened)

def slotConnected (i : ℕ) (result : Answer Error X) (p : Pool X V) : Option (Pool X V) :=
  (match result with
  | .error failure =>
    (addLeaseCleanup i (.error failure)
      (p.finishMaintenance.modifySlot i (Slot.become .closed))).bind fun p =>
        (slotFailure i failure p).bind (finishLease i)
  | .ok () =>
    let p := p.finishMaintenance.connect i
    match p.lifecycle with
    | .accepting =>
      (finishLease i (p.modifySlot i (Slot.become .idle))).bind dispatchWaiting
    | .stopping | .stopped => some (p.modifySlot i (Slot.become .needsClose))).bind pump

/-- `released` is what the release of the helpers gives. -/
def Pool.collect (result released : Answer Error X) (p : Pool X V) : Pool X V :=
  { p with
    lifecycleResult := combine (combine ((List.range p.connections).foldl
      (fun result i => combine result (p.slots i).cleanupResult) p.lifecycleResult) result) released
    lifecycle := .stopped }

/-- The result of the pool is filled once. -/
def databaseClosed (result released : Answer Error X) (p : Pool X V) : Option (Pool X V) :=
  let p := p.finishMaintenance.collect result released
  match p.shutdownResult with
  | some _ => none
  | none => some { p with shutdownResult := some p.lifecycleResult }

/-! ### The pool under any order of events -/

inductive Label (X V : Type)
  | admitRequest (inCallback : Bool) (operation : Operation)
  | cancel (inCallback : Bool) (r : ℕ)
  | shutdown (inCallback : Bool)
  | enter (i : ℕ)
  | leave (i : ℕ) (e : Ending X V)
  | offloadFailed (i : ℕ) (x : X)
  | settle (i : ℕ)
  | slotClosed (result : Answer Error X)
  | slotConnected (result : Answer Error X)
  | databaseClosed (result released : Answer Error X)
  | lifecycleFailure (failure : Failure X)

/-- The work on the helper of a slot. -/
def Pool.workAt (p : Pool X V) (i : ℕ) : Option (Work X V) :=
  if i < p.connections then (p.slots i).work else none

/-- What the scheduler and the helpers can do next; a step that fails has no next pool. -/
def handle (p : Pool X V) : Label X V → Option (Option (Pool X V))
  | .admitRequest inCallback operation => some ((admitRequest inCallback operation p).map Prod.snd)
  | .cancel inCallback r =>
    if r < p.admitted then some ((cancel inCallback r p).map Prod.snd) else none
  | .shutdown inCallback => some ((shutdown inCallback p).map Prod.snd)
  | .enter i =>
    match p.workAt i with
    | some ⟨r, operation, c, .waiting⟩ => some (enter i ⟨r, operation, c, .waiting⟩ p)
    | _ => none
  | .leave i e =>
    match p.workAt i with
    | some ⟨r, operation, c, .running⟩ => some (some (leave i ⟨r, operation, c, .running⟩ e p))
    | _ => none
  | .offloadFailed i x =>
    match p.workAt i with
    | some ⟨_, _, _, .waiting⟩ =>
      some (some (p.modifySlot i (Slot.reach (.ended (.error (.raised x))))))
    | _ => none
  | .settle i =>
    match p.workAt i with
    | some ⟨r, operation, c, .ended result⟩ =>
      some (settle i ⟨r, operation, c, .ended result⟩ result p)
    | _ => none
  | .slotClosed result =>
    match p.maintenance with
    | some (.closeSlot i c) => some (slotClosed i c result p)
    | _ => none
  | .slotConnected result =>
    match p.maintenance with
    | some (.connect i) => some (slotConnected i result p)
    | _ => none
  | .databaseClosed result released =>
    match p.maintenance with
    | some .closeDatabase => some (databaseClosed result released p)
    | _ => none
  | .lifecycleFailure failure => some (lifecycleFailure failure p)

/-- A slot as the creation of the pool leaves it. -/
def freshSlot (i : ℕ) : Slot X V where
  owner := some i
  state := .idle
  lease := none
  cleanupResult := .ok ()
  work := none

def created (connections queueCapacity : ℕ) : Pool X V where
  connections := connections
  queueCapacity := queueCapacity
  slots := freshSlot
  requests _ := newRequest .execute
  admitted := 0
  opened := connections
  queue := []
  lifecycle := .accepting
  maintenanceBusy := false
  maintenance := none
  lifecycleResult := .ok ()
  shutdownResult := none
  log := (List.range connections).reverse.map .opened

/-- A pool with at least one connection; it has failed when there is no pool left. -/
def system (X V : Type) : Transition.System (Option (Pool X V)) (Label X V) where
  start s := ∃ connections queueCapacity, 0 < connections ∧
    s = some (created connections queueCapacity)
  step s l := s.bind fun p => handle p l

end DuckdbMl.AsyncPool
