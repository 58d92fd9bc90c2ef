import Mathlib.Logic.Function.Basic
import Mathlib.Data.List.Basic

/-!
# A connection's owner and its critical sections

The record that `resource.ml` keeps for one connection, and the sections it runs under the
connection gate, each a function of that record. Parties (threads with an operation, a
transaction, a request or a close) are named by `A`; a transaction and a request carry the name
of the party that runs them. The engine's open transaction and its handle are part of the record.

Two fields are ghosts that no section reads: `holder` is the party that set `busy`, and `overrun`
an operation that has discarded the connection and not returned yet.

## Main definitions

* `Owner`, `Child`, `Token`, `RequestState`: the shared state of a connection
* `Owner.admitOperation` and the other sections, under the names of the source
-/

namespace DuckdbMl.Resource

/-- `state = Open | Closing | Closed_state` -/
inductive State
  | opened
  | closing
  | closed
deriving DecidableEq

/-- The errors of admission. -/
inductive Error
  | busy
  | closed
deriving DecidableEq

/-- A transaction token: `active` in the source is both `starting`, before the callback has it,
and `active`. -/
inductive Token
  | unused
  | starting
  | active
  | revoked
deriving DecidableEq

/-- `request_state` -/
inductive RequestState
  | fresh
  | admitted
  | running
  | quiescing
  | settling
  | finished
deriving DecidableEq

/-- The transaction that the engine has open: a user's, or that of `with_child_snapshot`. -/
inductive Session (A : Type)
  | explicit (tx : A)
  | internal
deriving DecidableEq

/-- A prepared child: the request of its facade, the transaction it belongs or is lent to, its
state, and how often its cleanup has run. -/
structure Child (A : Type) where
  request : Option A
  transaction : Option A
  state : State
  destroyed : ℕ

/-- An entry of the statement cache. -/
structure Cached (K : Type) where
  key : K
  child : ℕ
deriving DecidableEq

/-- The owner of a connection. `children` is the table of all children, of which the first `next`
have been registered; `preparedChildren` are those that the connection still lists. -/
structure Owner (A K : Type) where
  state : State
  busy : Bool
  lease : Option A
  requestLease : Option A
  resultOwner : Option ℕ
  preparedChildren : List ℕ
  cached : List (Cached K)
  children : ℕ → Child A
  next : ℕ
  tokens : A → Token
  requests : A → RequestState
  session : Option (Session A)
  handle : Bool
  disconnects : ℕ
  holder : Option A
  overrun : Option A

namespace Owner

variable {A K : Type} [DecidableEq A] [DecidableEq K] (o : Owner A K)

/-- A connection just opened. -/
def fresh : Owner A K where
  state := .opened
  busy := false
  lease := none
  requestLease := none
  resultOwner := none
  preparedChildren := []
  cached := []
  children := fun _ => ⟨none, none, .closed, 0⟩
  next := 0
  tokens := fun _ => .unused
  requests := fun _ => .fresh
  session := none
  handle := true
  disconnects := 0
  holder := none
  overrun := none

/-! ## Admission -/

def available : Except Error Unit := if o.state = .opened then .ok () else .error .closed

/-- The request part of `facade_access`; `checkpoint` is part of the operation's own outcome. -/
def facadeAccess : Option A → Except Error Unit
  | none => if o.requestLease.isSome then .error .busy else .ok ()
  | some r =>
    if o.requests r = .running ∧ o.requestLease = some r then .ok () else .error .closed

def tokenActive : Option A → Bool
  | none => true
  | some tx => o.tokens tx = .starting || o.tokens tx = .active

def leaseMatches (tx : Option A) : Bool := o.lease = tx

def resultFree (holder : Option ℕ) : Bool := o.resultOwner = none || o.resultOwner = holder

def require (holds : Bool) (error : Error) : Except Error Unit :=
  if holds then .ok () else .error error

/-- `claim_busy` -/
def claimBusy (a : A) : Owner A K := { o with busy := true, holder := some a }

/-- `admit_operation`, up to its claim. -/
def admitOperation (a : A) (request : Option A) (live : Bool) (tx : Option A)
    (holder : Option ℕ) : Except Error (Owner A K) := do
  require live .closed
  o.available
  o.facadeAccess request
  require (!o.busy && o.leaseMatches tx && o.resultFree holder) .busy
  return o.claimBusy a

/-- `finish_operation` -/
def finishOperation : Owner A K := { o with busy := false, holder := none }

/-- `begin_discard` -/
def beginDiscard (a : A) : Owner A K := { o with state := .closing, busy := true, holder := some a }

/-! ## Children -/

def setChild (c : ℕ) (f : Child A → Child A) : Owner A K :=
  { o with children := Function.update o.children c (f (o.children c)) }

def childOpen (c : ℕ) : Bool := (o.children c).state = .opened

/-- `register_child`, or `register_cached_child`, of the next child. -/
def registerChild (request tx : Option A) (cached : Bool) : Owner A K :=
  { o with
    children := Function.update o.children o.next
      ⟨request, if cached then none else tx, .opened, 0⟩
    next := o.next + 1
    preparedChildren := if cached then o.preparedChildren else o.next :: o.preparedChildren }

/-- `reserve_result` -/
def reserveResult (c : ℕ) : Owner A K := { o with resultOwner := some c }

/-- `release_result` -/
def releaseResult (c : ℕ) : Owner A K :=
  { o with resultOwner := if o.resultOwner = some c then none else o.resultOwner }

/-- A child's `cleanup`, which revokes its result, and `unregister_child` after it. -/
def destroyChild (c : ℕ) : Owner A K :=
  { (o.releaseResult c).setChild c fun child =>
      { child with state := .closed, destroyed := child.destroyed + 1 } with
    preparedChildren := o.preparedChildren.filter (· ≠ c) }

/-- `lend_child`, when it sets the transaction and when it takes it back. -/
def lendChild (c : ℕ) (tx : Option A) : Owner A K :=
  o.setChild c fun child => { child with transaction := tx }

/-- `foreign_lease` of `force_close_child` -/
def foreignLease (c : ℕ) : Bool :=
  match o.lease with
  | none => false
  | some tx => !(o.tokenActive (some tx) && (o.children c).transaction = some tx)

/-! ## The statement cache -/

/-- `cache_find`: a key with exactly one entry moves to the front. -/
def cacheFind (key : K) : Owner A K × Option ℕ :=
  match o.cached.partition (·.key = key) with
  | ([found], rest) => ({ o with cached := found :: rest }, some found.child)
  | _ => (o, none)

/-- `cache_add`: the new entry in front, and the children of those that no longer fit. -/
def cacheAdd (capacity : ℕ) (key : K) (c : ℕ) : Owner A K × List ℕ :=
  let entries := ⟨key, c⟩ :: o.cached
  ({ o with cached := entries.take capacity }, (entries.drop capacity).map (·.child))

/-- `cache_remove` -/
def cacheRemove (key : K) : Owner A K × List ℕ :=
  let (removed, kept) := o.cached.partition (·.key = key)
  ({ o with cached := kept }, removed.map (·.child))

/-! ## The engine's transaction -/

/-- What BEGIN, COMMIT and ROLLBACK leave open. -/
def setSession (s : Option (Session A)) : Owner A K := { o with session := s }

/-- COMMIT of the operation's own transaction. -/
def commit (own : Bool) : Owner A K := if own then o.setSession none else o

/-- BEGIN takes effect outside a transaction only. -/
def begin (s : Session A) : Owner A K := if o.session.isNone then o.setSession (some s) else o

/-! ## Closing -/

/-- `unleased` of `close_connection` and `Bridge.run` -/
def unleased : Bool :=
  !o.busy && o.requestLease.isNone && o.lease.isNone && o.resultOwner.isNone

/-- `quiescent` of `force_close_connection` -/
def quiescent : Bool := !o.busy && o.lease.isNone && o.requestLease.isNone

/-- `native_close_connection`, which frees a handle once, and `mark_closed` after it. -/
def closeNative : Owner A K :=
  { o with
    state := .closed, busy := false, holder := none, session := none, handle := false
    disconnects := if o.handle then o.disconnects + 1 else o.disconnects }

end Owner

end DuckdbMl.Resource
