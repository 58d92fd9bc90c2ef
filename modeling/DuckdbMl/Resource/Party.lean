import DuckdbMl.Resource.Owner
import DuckdbMl.Transition.Interleaving

/-!
# The parties of a connection

A party runs the functions of `resource.ml` on one connection, one at a time: operations,
`force_close_child`, `with_transaction`, `Bridge.run` and the closes. Between two sections of the
gate, or between a section and native work, the other parties may step. What the engine answers
and what a callback does are labels. A cleanup that raises still unregisters its child and goes on
with the next, so its outcome does not show.

## Main definitions

* `Operation.step`, `Force.step`, `Tx.step`, `Bridge.step`, `Close.step`, `Wreck.step`: the machines
* `Party`, `Party.step`: what a party runs, and its step
* `connection`: the system of all parties of a connection
-/

namespace DuckdbMl.Resource

open Transition

variable {A K : Type}

/-- `admit_operation` for work without a child, or `child_operation`. -/
inductive Operation (A : Type)
  | plain (request tx : Option A)
  | child (c : ℕ) (allowResult : Bool)

/-- The labels: what a party starts, and what native work or a callback answers. `errorAfter` is a
failure or an exception after the native call took effect, `suppressed` a call that the latch
keeps from the engine, or a cancellation seen after a COMMIT. -/
inductive Act (A K : Type)
  | operate (op : Operation A)
  | force (c : ℕ)
  | transaction (request : Option A)
  | bridge (request : Option A)
  | close
  | forceClose
  | revoke
  | lend (c : ℕ) (tx : Option A)
  | cacheFind (key : K)
  | cacheAdd (key : K) (c : ℕ)
  | cacheRemove (key : K)
  | register (cached : Bool)
  | snapshot
  | release
  | ok
  | error
  | errorAfter
  | suppressed

/-- `destroy_connection`: the registered children, the cached ones, and the native handle. -/
inductive Wreck
  | children
  | each (cs : List ℕ)
  | cache
  | eachCached (cs : List ℕ)
  | native

/-- An operation: the read of `child.transaction`, the admission, the work, and within it
`with_child_snapshot` (`own` when the snapshot's transaction is its own). A `linger`ing operation
has discarded the connection; its `finish_operation` is still to come. -/
inductive OpPc (A : Type)
  | read
  | enter (tx : Option A)
  | admitted
  | begin
  | inside (own : Bool)
  | executed (own : Bool)
  | undo
  | wrecking (w : Wreck)
  | finish
  | linger

/-- `force_close_child` after it has marked the child. -/
inductive ForcePc
  | waiting
  | destroying
  | finishing

/-- Why `revoke_and_drain` runs: at the end of the body, or in `rollback`. -/
inductive Drain
  | body (ok : Bool)
  | recover

/-- `with_transaction` after its claim; `attempted` is `begin_attempted`. -/
inductive TxPc
  | begun
  | body
  | revoked (attempted : Bool) (drain : Drain)
  | draining (attempted : Bool) (drain : Drain) (cs : List ℕ)
  | committing
  | rolling (attempted : Bool)
  | discard
  | release
  | wrecking (w : Wreck)
  | final

/-- `Bridge.run` after `consume`; `installed` tells `finish` whether to release the lease. -/
inductive BridgePc
  | admitRequest
  | install
  | callback
  | quiesce
  | waiting
  | destroying (cs : List ℕ)
  | detach
  | wrecking (w : Wreck)
  | finish (installed : Bool)

/-- `close_connection` and `force_close_connection` after their first section. -/
inductive ClosePc
  | waiting
  | wrecking (w : Wreck)

/-- What a party is running. -/
inductive Party (A : Type)
  | out
  | op (op : Operation A) (pc : OpPc A)
  | force (c : ℕ) (pc : ForcePc)
  | transaction (request : Option A) (pc : TxPc)
  | bridge (request : Option A) (pc : BridgePc)
  | close (pc : ClosePc)

section steps

variable [DecidableEq A] [DecidableEq K]

/-- `destroy_connection`; `none` when it is done. -/
def Wreck.step (o : Owner A K) : Wreck → Owner A K × Option Wreck
  | .children => (o, some (.each o.preparedChildren))
  | .each (c :: cs) => (o.destroyChild c, some (.each cs))
  | .each [] => (o, some .cache)
  | .cache => ({ o with cached := [] }, some (.eachCached (o.cached.map (·.child))))
  | .eachCached (c :: cs) => (o.destroyChild c, some (.eachCached cs))
  | .eachCached [] => (o, some .native)
  | .native => (o.closeNative, none)

namespace Operation

def request (o : Owner A K) : Operation A → Option A
  | .plain request _ => request
  | .child c _ => (o.children c).request

/-- The token an operation names, read before its admission. -/
def transaction (o : Owner A K) : Operation A → Option A
  | .plain _ tx => tx
  | .child c _ => (o.children c).transaction

/-- The `live` check, evaluated in the admission. -/
def live (o : Owner A K) : Operation A → Bool
  | .plain _ tx => o.tokenActive tx
  | .child c _ => o.childOpen c && o.tokenActive (o.children c).transaction

def holder : Operation A → Option ℕ
  | .plain _ _ => none
  | .child c allowResult => if allowResult then some c else none

/-- **An operation's step.** -/
def step (a : A) (o : Owner A K) (op : Operation A) :
    OpPc A → Act A K → Option (Owner A K × Option (OpPc A))
  | .read, .ok => some (o, some (.enter (op.transaction o)))
  | .enter tx, .ok =>
    match o.admitOperation a (op.request o) (op.live o) tx op.holder with
    | .ok o' => some (o', some .admitted)
    | .error _ => some (o, none)
  | .admitted, .ok | .admitted, .error => some (o, some .finish)
  -- `Query.prepare_on` registers the child it prepared.
  | .admitted, .register cached =>
    match op with
    | .plain request tx => some (o.registerChild request tx cached, some .finish)
    | .child _ _ => none
  -- `with_child_snapshot` reads the child's transaction once more.
  | .admitted, .snapshot =>
    match op with
    | .plain _ _ => none
    | .child c _ =>
      some (o, some (if (o.children c).transaction.isSome then .inside false else .begin))
  -- The end of a fold or a `close_result`.
  | .admitted, .release =>
    match op with
    | .plain _ _ => none
    | .child c _ => some (o.releaseResult c, some .finish)
  | .begin, .ok =>
    some (o.begin .internal, some (if o.session.isNone then .inside true else .undo))
  | .begin, .error => some (o, some .undo)
  | .begin, .errorAfter => some (o.begin .internal, some .undo)
  | .begin, .suppressed => some (o, some .finish)
  | .inside own, .ok => some (o, some (.executed own))
  | .inside own, .error => some (o, some (if own then .undo else .finish))
  -- COMMIT when the transaction is the operation's own, and the result is published.
  | .executed own, .ok =>
    match op with
    | .plain _ _ => none
    | .child c _ => some ((o.commit own).reserveResult c, some .finish)
  | .executed own, .suppressed => some (o.commit own, some .finish)
  | .executed own, .error => some (o, some (if own then .undo else .finish))
  | .executed own, .errorAfter => if own then some (o.setSession none, some .undo) else none
  | .undo, .ok => some (o.setSession none, some .finish)
  | .undo, .error => some (o, some (.wrecking .children))
  | .wrecking w, .ok =>
    match w.step o with
    | (o', some w') => some (o', some (.wrecking w'))
    | (o', none) => some ({ o' with overrun := some a }, some .linger)
  | .finish, .ok => some (o.finishOperation, none)
  | .linger, .ok => some ({ o.finishOperation with overrun := none }, none)
  | _, _ => none

end Operation

/-- `force_close_child`; the first section has marked the child. -/
def Force.step (a : A) (o : Owner A K) (c : ℕ) :
    ForcePc → Act A K → Option (Owner A K × Option ForcePc)
  | .waiting, .ok =>
    if o.busy || o.foreignLease c then none
    else if (o.children c).state = .closed then some (o, none)
    else some (o.claimBusy a, some .destroying)
  | .destroying, .ok => some (o.destroyChild c, some .finishing)
  | .finishing, .ok => some (o.finishOperation, none)
  | _, _ => none

/-- The first section of `force_close_child`. -/
def Force.start (o : Owner A K) (c : ℕ) : Owner A K × Option ForcePc :=
  if (o.children c).state = .closed then (o, none)
  else (o.setChild c fun child => { child with state := .closing }, some .waiting)

namespace Tx

/-- The claim of `with_transaction`. -/
def start (a : A) (o : Owner A K) (request : Option A) : Except Error (Owner A K) := do
  o.facadeAccess request
  o.available
  Owner.require (!o.busy && o.lease.isNone && o.resultOwner.isNone) .busy
  return { o with lease := some a, tokens := Function.update o.tokens a .starting }

def setToken (o : Owner A K) (a : A) (t : Token) : Owner A K :=
  { o with tokens := Function.update o.tokens a t }

/-- `release` -/
def releaseLease (o : Owner A K) : Owner A K := { o with lease := none }

/-- **A step of `with_transaction`.** -/
def step (a : A) (o : Owner A K) : TxPc → Act A K → Option (Owner A K × Option TxPc)
  | .begun, .ok =>
    if o.session.isNone then some (setToken (o.begin (.explicit a)) a .active, some .body)
    else some (setToken o a .revoked, some (.revoked true .recover))
  | .begun, .error => some (setToken o a .revoked, some (.revoked true .recover))
  | .begun, .errorAfter =>
    some (setToken (o.begin (.explicit a)) a .revoked, some (.revoked true .recover))
  | .begun, .suppressed => some (setToken o a .revoked, some (.revoked false .recover))
  -- The body returns; a poisoned transaction counts as `error`.
  -- The drain's first section revokes the token.
  | .body, .ok => some (setToken o a .revoked, some (.revoked true (.body true)))
  | .body, .error => some (setToken o a .revoked, some (.revoked true (.body false)))
  | .revoked attempted drain, .ok =>
    if o.busy then none
    else some (o, some (.draining attempted drain
      (o.preparedChildren.filter fun c => (o.children c).transaction = some a)))
  | .draining attempted drain (c :: cs), .ok =>
    some (o.destroyChild c, some (.draining attempted drain cs))
  | .draining attempted drain [], .ok =>
    match drain with
    | .body true => some (o, some .committing)
    | .body false => some (o, some (.revoked attempted .recover))
    | .recover => some (o, some (.rolling attempted))
  | .committing, .ok => some (o.setSession none, some .final)
  | .committing, .error => some (o, some (.revoked true .recover))
  | .committing, .errorAfter => some (o.setSession none, some (.revoked true .recover))
  | .committing, .suppressed => some (o.setSession none, some (.revoked false .recover))
  | .rolling attempted, .ok => some (o.commit attempted, some .final)
  | .rolling attempted, .error => if attempted then some (o, some .discard) else none
  | .discard, .ok => some (o.beginDiscard a, some .release)
  | .release, .ok => some (releaseLease o, some (.wrecking .children))
  | .wrecking w, .ok =>
    match w.step o with
    | (o', some w') => some (o', some (.wrecking w'))
    | (o', none) => some (o', some .final)
  | .final, .ok => some (releaseLease o, none)
  | _, _ => none

end Tx

namespace Bridge

/-- The claim of `admit_request`. -/
def admitRequest (a : A) (o : Owner A K) (request : Option A) : Except Error (Owner A K) := do
  o.facadeAccess request
  o.available
  Owner.require o.unleased .busy
  Owner.require o.preparedChildren.isEmpty .busy
  return { o with requestLease := some a }

def setRequest (o : Owner A K) (a : A) (s : RequestState) : Owner A K :=
  { o with requests := Function.update o.requests a s }

def releaseRequest (o : Owner A K) : Owner A K := { o with requestLease := none }

/-- **A step of `Bridge.run`.** -/
def step (a : A) (o : Owner A K) (request : Option A) :
    BridgePc → Act A K → Option (Owner A K × Option BridgePc)
  | .admitRequest, .ok =>
    match admitRequest a o request with
    | .ok o' => some (o', some .install)
    | .error _ => some (o, some (.finish false))
  | .admitRequest, .suppressed => some (o, some (.finish false))
  | .install, .ok => some (setRequest o a .running, some .callback)
  | .install, .error => some (o, some .quiesce)
  | .callback, .ok => some (o, some .quiesce)
  | .quiesce, .ok => some (setRequest o a .quiescing, some .waiting)
  | .waiting, .ok =>
    if o.busy || o.lease.isSome then none
    else some (setRequest o a .settling, some (.destroying
      (o.preparedChildren.filter fun c => (o.children c).request = some a)))
  | .destroying (c :: cs), .ok => some (o.destroyChild c, some (.destroying cs))
  | .destroying [], .ok => some (o, some .detach)
  | .detach, .ok => some (o, some (.finish true))
  -- An interrupt was delivered: the connection is discarded.
  | .detach, .error => some (o.beginDiscard a, some (.wrecking .children))
  | .wrecking w, .ok =>
    match w.step o with
    | (o', some w') => some (o', some (.wrecking w'))
    | (o', none) => some (o', some (.finish true))
  | .finish installed, .ok =>
    some (setRequest (if installed then releaseRequest o else o) a .finished, none)
  | _, _ => none

end Bridge

namespace Close

/-- `close_once` for `close_connection`. -/
def start (a : A) (o : Owner A K) : Owner A K × Option ClosePc :=
  if o.state = .opened ∧ o.unleased ∧ o.preparedChildren.isEmpty then
    ({ o.claimBusy a with state := .closing }, some (.wrecking .children))
  else (o, none)

/-- The first section of `force_close`. -/
def startForce (o : Owner A K) : Owner A K × Option ClosePc :=
  if o.state = .closed then (o, none) else ({ o with state := .closing }, some .waiting)

/-- `revoke` of `force_close_database` -/
def revoke (o : Owner A K) : Owner A K :=
  if o.state = .opened then { o with state := .closing } else o

def step (a : A) (o : Owner A K) : ClosePc → Act A K → Option (Owner A K × Option ClosePc)
  | .waiting, .ok =>
    if !o.quiescent then none
    else if o.state = .closed then some (o, none)
    else some (o.claimBusy a, some (.wrecking .children))
  | .wrecking w, .ok =>
    match w.step o with
    | (o', some w') => some (o', some (.wrecking w'))
    | (o', none) => some (o', none)
  | _, _ => none

end Close

namespace Party

variable (capacity : ℕ)

/-- A party that has returned is out. -/
def returned {σ π : Type} (f : π → Party A) (r : σ × Option π) : σ × Party A :=
  (r.1, r.2.elim .out f)

/-- What a party outside starts. A token or a request is used once, and a token is named only once
its callback has it. -/
def start (a : A) (o : Owner A K) : Act A K → Option (Owner A K × Party A)
  | .operate work =>
    match work with
    | .plain _ (some tx) =>
      if o.tokens tx = .unused ∨ o.tokens tx = .starting then none else some (o, .op work .read)
    | .plain _ none => some (o, .op work .read)
    | .child c _ => if c < o.next then some (o, .op work .read) else none
  | .force c => if c < o.next then some (returned (.force c) (Force.start o c)) else none
  | .transaction request =>
    if o.tokens a = .unused then
      match Tx.start a o request with
      | .ok o' => some (o', .transaction request .begun)
      | .error _ => some (o, .out)
    else none
  | .bridge request =>
    if o.requests a = .fresh then
      some (Bridge.setRequest o a .admitted, .bridge request .admitRequest)
    else none
  | .close => some (returned .close (Close.start a o))
  | .forceClose => some (returned .close (Close.startForce o))
  | .revoke => some (Close.revoke o, .out)
  | .lend c tx =>
    if tx.all (fun x => o.tokens x ≠ .unused ∧ o.tokens x ≠ .starting) then
      some (o.lendChild c tx, .out)
    else none
  | .cacheFind key => some ((o.cacheFind key).1, .out)
  | .cacheAdd key c => some ((o.cacheAdd capacity key c).1, .out)
  | .cacheRemove key => some ((o.cacheRemove key).1, .out)
  | _ => none

/-- **A party's step.** -/
def step (a : A) (o : Owner A K) : Party A → Act A K → Option (Owner A K × Party A)
  | .out, act => start capacity a o act
  | .op work pc, act => (work.step a o pc act).map (returned (.op work))
  | .force c pc, act => (Force.step a o c pc act).map (returned (.force c))
  | .transaction request pc, act => (Tx.step a o pc act).map (returned (.transaction request))
  | .bridge request pc, act => (Bridge.step a o request pc act).map (returned (.bridge request))
  | .close pc, act => (Close.step a o pc act).map (returned .close)

end Party

/-- **All parties of one connection**, whose database caches `capacity` statements. -/
def connection (A K : Type) [DecidableEq A] [DecidableEq K] (capacity : ℕ) :
    Interleaving (Owner A K) A (Party A) (Act A K) where
  start o := o = Owner.fresh
  idle := .out
  step := Party.step capacity

end steps

end DuckdbMl.Resource
