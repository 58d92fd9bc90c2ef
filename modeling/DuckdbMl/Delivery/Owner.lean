import DuckdbMl.Native.Heap

/-!
# The guard of a native connection

The sections that the stubs run under the guard of a connection's native owner: the worker's, which
say what it is about to do, and the controller's, which deliver a cancellation to the engine. A
section that ends in `caml_fatal_error` has no owner afterwards.

## Main definitions

* `Owner`, `Request`: the native owner of a connection, and a native request
* `workBegin`, `callBegin`, `callEnd`, `cleanupBegin`, …: the sections of the worker
* `install`, `uninstall`, `reserveDelivery`, `tryInterrupt`: the sections of a request
-/

namespace DuckdbMl.Delivery

open Native (RequestState)

inductive Phase
  | idle
  | noninterruptible
  | user
  | cleanup
  | closing
  deriving DecidableEq, Repr

/-- Whether the caller of a section has the runtime. -/
inductive Runtime
  | held
  | released
  deriving DecidableEq, Repr

/-- What the guard protects; `connected` tells whether there is a connection of the engine. -/
structure Owner where
  active : Option ℕ
  phase : Phase
  closing : Bool
  foreignActive : Bool
  cleanupDepth : ℕ
  connected : Bool

/-- A native request; `owner` tells whether it is bound to the connection, and `disposed` whether
its slot is empty. `stop` is the flag that its controller is stopped by. -/
structure Request where
  state : RequestState
  owner : Bool
  reserved : Bool
  cancelled : Bool
  disposed : Bool
  stop : Bool

def Request.created : Request := ⟨.fresh, false, false, false, false, false⟩

/-! ### The sections of the worker -/

def phaseUpdate (o : Owner) : Owner :=
  { o with
    phase :=
      if o.closing then .closing
      else if 0 < o.cleanupDepth then .cleanup
      else if o.foreignActive then .noninterruptible
      else .idle }

def workBegin (o : Owner) : Option Owner :=
  if o.closing || o.foreignActive || decide (0 < o.cleanupDepth) then none
  else some (phaseUpdate { o with foreignActive := true })

def workEnd (o : Owner) : Option Owner :=
  if !o.foreignActive || decide (0 < o.cleanupDepth) then none
  else some (phaseUpdate { o with foreignActive := false })

inductive Admission
  | admitted
  | cancelled
  deriving DecidableEq, Repr

/-- `latched` tells whether a request has been cancelled. -/
def callBegin (interruptible : Bool) (latched : ℕ → Bool) (o : Owner) :
    Option (Admission × Owner) :=
  if !o.foreignActive || decide (0 < o.cleanupDepth) || o.closing then none
  else
    match o.active with
    | some r =>
      -- the load that admission is linearized at: what is latched later is for the controller
      if latched r then some (.cancelled, phaseUpdate o)
      else
        some (.admitted, { o with phase := if interruptible then .user else .noninterruptible })
    | none => some (.admitted, { o with phase := .noninterruptible })

def callEnd (o : Owner) : Owner := phaseUpdate o

def cleanupBegin (runtime : Runtime) (o : Owner) : Option Owner :=
  -- a fallback that holds the runtime has its owner for itself
  if runtime = .held ∧ o.foreignActive then none
  else some (phaseUpdate { o with cleanupDepth := o.cleanupDepth + 1 })

def cleanupEnd (o : Owner) : Option Owner :=
  if o.cleanupDepth = 0 then none
  else some (phaseUpdate { o with cleanupDepth := o.cleanupDepth - 1 })

def closeBegin (o : Owner) : Option Owner :=
  if o.foreignActive || decide (0 < o.cleanupDepth) || o.active.isSome then none
  else some (phaseUpdate { o with closing := true })

/-! ### The sections of a request -/

inductive InstallResult
  | installed
  | contended
  | connectionClosed
  | connectionLeased
  | used
  | connectionActive
  deriving DecidableEq, Repr

/-- `contended` tells whether the guard has been found taken. -/
def install (contended : Bool) (r : ℕ) (q : Request) (o : Owner) :
    InstallResult × Request × Owner :=
  if q.disposed || q.state ≠ .fresh then (.used, q, o)
  else if contended then (.contended, q, o)
  else if o.closing then (.connectionClosed, q, o)
  else if o.foreignActive || decide (0 < o.cleanupDepth) then (.connectionActive, q, o)
  else if !o.connected then (.connectionClosed, q, o)
  else if o.active.isSome then (.connectionLeased, q, o)
  else (.installed, { q with state := .installed, owner := true }, { o with active := some r })

inductive UninstallResult
  | uninstalled
  | contended
  | workPending
  | deliveryPending
  | notInstalled
  deriving DecidableEq, Repr

/-- The active request of the owner is the one to be uninstalled. -/
def uninstall (contended : Bool) (r : ℕ) (q : Request) (o : Owner) :
    Option (UninstallResult × Request × Owner) :=
  if q.disposed || q.state ≠ .installed then some (.notInstalled, q, o)
  else if contended then some (.contended, q, o)
  else if o.foreignActive || decide (0 < o.cleanupDepth) then some (.workPending, q, o)
  else if q.reserved then some (.deliveryPending, q, o)
  else if o.active ≠ some r then none
  else
    some (.uninstalled, { q with state := .detached, owner := false }, { o with active := none })

/-- The slot is emptied, unless the request is installed. -/
def dispose (q : Request) : Option Request :=
  if q.disposed then some q
  else if q.state = .installed then none
  else some { q with disposed := true }

def eligible (r : ℕ) (q : Request) (o : Owner) : Bool :=
  o.active = some r && q.cancelled && o.phase = .user && !o.closing && o.connected

inductive ReserveResult
  | reserved
  | ineligible
  | pending
  deriving DecidableEq, Repr

/-- The guard has been taken. -/
def reserveDelivery (r : ℕ) (q : Request) (o : Owner) : ReserveResult × Request :=
  if q.reserved then (.pending, q)
  else if eligible r q o then (.reserved, { q with reserved := true })
  else (.ineligible, q)

inductive InterruptResult
  | delivered
  | skipped
  | notReserved
  deriving DecidableEq, Repr

/-- The guard has been taken. The engine is interrupted when this is delivered. -/
def tryInterrupt (r : ℕ) (q : Request) (o : Owner) : InterruptResult :=
  if eligible r q o then .delivered else .skipped

end DuckdbMl.Delivery
