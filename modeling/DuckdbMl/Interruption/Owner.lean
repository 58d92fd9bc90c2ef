import Mathlib.Logic.Function.Basic
import DuckdbMl.Interruption.Basic

/-!
# The cleanups of a connection

The cleanups that the library registers, as sequences of actions on a connection, its children, its
native request, its transaction, and the temporary file of an export. The caller owns the connection
exclusively: no foreign work and no delivery of a cancellation is under way.

## Main definitions

* `Native`, `Child`, `Owner`: native shells, children, and the connection with its parts
* `cleanup`, `destroyEach`, `detachRequest`, `destroyConnection`: the parts of the cleanups
* `Cleanup.run`: the cleanups that are registered
-/

namespace DuckdbMl.Interruption

open Effects

variable {E : Type}

/-- A native shell with what it refers to, and how often each has been released. `slot` tells
whether the shell is still there. -/
structure Native where
  slot : Bool
  engine : Bool
  result : Bool
  releases : ℕ
  resultReleases : ℕ
  frees : ℕ
  deriving DecidableEq, Repr

/-- A shell that is gone is left alone. -/
def Native.clearResult (n : Native) : Native :=
  if n.slot && n.result then { n with result := false, resultReleases := n.resultReleases + 1 }
  else n

def Native.clear (n : Native) : Native :=
  let n := n.clearResult
  if n.slot && n.engine then { n with engine := false, releases := n.releases + 1 } else n

def Native.finish (n : Native) : Native :=
  if n.slot then { n.clear with slot := false, frees := n.frees + 1 } else n

inductive Status
  | opened
  | closing
  | closed
  deriving DecidableEq, Repr

/-- A prepared statement or an appender. `facade` tells whether it was made through the facade of
the request, and `transaction` whether it belongs to the transaction. -/
@[ext] structure Child where
  appender : Bool
  facade : Bool
  transaction : Bool
  status : Status
  native : Native
  hasResult : Bool
  resultClosed : Bool
  failure : Option Cause

structure Request where
  cancelled : Bool
  stop : Bool
  controller : Bool
  native : Bool
  deriving DecidableEq, Repr

structure NativeRequest where
  slot : Bool
  installed : Bool
  frees : ℕ
  deriving DecidableEq, Repr

/-- `facade` tells whether the transaction and the export run through the facade of the request,
`works` counts the live shells for work on files, and `fault` records a shell that is read after it
was freed, or closed under an installed request. -/
@[ext] structure Owner where
  children : ℕ → Child
  prepared : List ℕ
  cached : List ℕ
  resultOwner : Option ℕ
  status : Status
  busy : Bool
  registered : Bool
  native : Native
  leased : Bool
  request : Request
  nativeRequest : NativeRequest
  facade : Bool
  active : Bool
  failure : Option Cause
  begun : Bool
  engineTransaction : Bool
  file : Bool
  removable : Bool
  works : ℕ
  fault : Bool

def Owner.update (i : ℕ) (f : Child → Child) (s : Owner) : Owner :=
  { s with children := Function.update s.children i (f (s.children i)) }

def Owner.onNative (i : ℕ) (f : Native → Native) : Owner → Owner :=
  Owner.update i fun c => { c with native := f c.native }

def Owner.onRequest (f : Request → Request) (s : Owner) : Owner :=
  { s with request := f s.request }

def Owner.onNativeRequest (f : NativeRequest → NativeRequest) (s : Owner) : Owner :=
  { s with nativeRequest := f s.nativeRequest }

/-! ### Requests -/

def Request.stopController (r : Request) : Request := { r with stop := true }

def Request.dropController (r : Request) : Request := { r with controller := false }

def Request.dropNative (r : Request) : Request := { r with native := false }

/-- The controller is told to stop, and joined when there is one. -/
def joinController : Cleaning Owner E Unit := do
  act .free .free (Owner.onRequest Request.stopController)
  look fun s => Comp.when s.request.controller do
    act .free .free id
    act .free .free (Owner.onRequest Request.dropController)

def admitCleanup (facade : Bool) : Cleaning Owner E Unit :=
  look fun s => Comp.when (facade && s.request.cancelled) joinController

def NativeRequest.uninstall (n : NativeRequest) : NativeRequest :=
  if n.slot then { n with installed := false } else n

def NativeRequest.dispose (n : NativeRequest) : NativeRequest :=
  if n.slot && !n.installed then { n with slot := false, frees := n.frees + 1 } else n

/-- The native request is taken out of the request before it is uninstalled and disposed of. -/
def detachRequest : Cleaning Owner E Unit := do
  joinController
  look fun s => do
    act .free (if s.request.native then .holding else .free) (Owner.onRequest Request.dropNative)
    Comp.when s.request.native do
      act .holding .holding (Owner.onNativeRequest NativeRequest.uninstall)
      act .holding .free (Owner.onNativeRequest NativeRequest.dispose)

def detachOwnerRequest : Cleaning Owner E Unit := look fun s => Comp.when s.leased detachRequest

/-! ### Children -/

def Owner.releaseResult (i : ℕ) (s : Owner) : Owner :=
  { s with resultOwner := if s.resultOwner = some i then none else s.resultOwner }

def Child.closeOwnResult (c : Child) : Child :=
  { c with resultClosed := c.resultClosed || c.hasResult }

def Child.closeResult (c : Child) : Child := { c with resultClosed := true }

def Child.dropResult (c : Child) : Child := { c with hasResult := false }

def releaseResult (i : ℕ) : Cleaning Owner E Unit := act .free .free (Owner.releaseResult i)

def revokeResult (i : ℕ) : Cleaning Owner E Unit := do
  act .free .free (Owner.update i Child.closeOwnResult)
  act .free .free (Owner.update i Child.dropResult)
  releaseResult i

/-- `finish` also releases what an interrupted `close` has left. -/
def releaseNative (close finish : Owner → Owner) : Cleaning Owner E Unit :=
  protect (act .free .free finish) (act .free .free close)

def nativeClose (i : ℕ) : Cleaning Owner E Unit := do
  look fun s => admitCleanup (s.children i).facade
  releaseNative (Owner.onNative i Native.clear) (Owner.onNative i Native.finish)

def nativeCloseResult (i : ℕ) : Cleaning Owner E Unit := do
  look fun s => admitCleanup (s.children i).facade
  releaseNative (Owner.onNative i Native.clearResult) (Owner.onNative i Native.clearResult)

def destroyResult (i : ℕ) : Cleaning Owner E Unit :=
  protect
    (do
      act .free .free (Owner.update i Child.closeResult)
      act .free .free (Owner.update i Child.dropResult)
      releaseResult i)
    (nativeCloseResult i)

def cleanupPrepared (i : ℕ) : Cleaning Owner E Unit := protect (revokeResult i) (nativeClose i)

def discarded : Cause := .native "Unclosed appender discarded at scope exit"

def Child.poison (c : Child) : Child := { c with failure := c.failure <|> some discarded }

def Owner.poison (s : Owner) : Owner := { s with failure := s.failure <|> some discarded }

/-- The first failure of the appender and that of its transaction stay. -/
def poison (i : ℕ) : Cleaning Owner E Unit := do
  act .free .free (Owner.update i Child.poison)
  act .free .free Owner.poison

def Owner.readAppender (i : ℕ) (s : Owner) : Owner :=
  { s with fault := s.fault || !(s.children i).native.slot }

/-- The status of the appender is read only while its shell is there. -/
def destroyAppender (i : ℕ) : Cleaning Owner E Unit := do
  look fun s => admitCleanup (s.children i).facade
  look fun s => Comp.when (s.children i).native.slot
    (protect (act .free .free (Owner.onNative i Native.finish)) do
      act .free .free (Owner.onNative i Native.clear)
      act .free .free (Owner.readAppender i))

def cleanupAppender (i : ℕ) : Cleaning Owner E Unit := do
  poison i
  protect (releaseResult i) (destroyAppender i)

/-- The cleanup that a child has been registered with. -/
def cleanup (i : ℕ) : Cleaning Owner E Unit :=
  look fun s => if (s.children i).appender then cleanupAppender i else cleanupPrepared i

def Child.mark (c : Child) : Child := { c with status := .closed }

def Owner.dropChild (i : ℕ) (s : Owner) : Owner := { s with prepared := s.prepared.filter (· ≠ i) }

/-- `here` is the site of a child that is not closed yet, and `later` that of the children after it.
-/
def unregisterChild (here later : Site) (i : ℕ) : Cleaning Owner E Unit := do
  act here later (Owner.update i Child.mark)
  act later later (Owner.dropChild i)

/-- The children that are still to be destroyed are known to the connection, or, with `holding`, to
the list alone. -/
def destroyEach (site : Site) : List ℕ → Cleaning Owner E Unit
  | [] => pure ()
  | i :: rest =>
    protect
      (do
        unregisterChild site (if rest.isEmpty then .free else site) i
        destroyEach site rest)
      (completeCleanup (cleanup i))

def destroyChildren (predicate : Child → Bool) : Cleaning Owner E Unit :=
  look fun s => destroyEach .free (s.prepared.filter fun i => predicate (s.children i))

def Owner.emptyCache (s : Owner) : Owner := { s with cached := [] }

/-- The cache is emptied before its statements are destroyed. -/
def destroyCached : Cleaning Owner E Unit :=
  look fun s => do
    act .free (if s.cached.isEmpty then .free else .holding) Owner.emptyCache
    destroyEach .holding s.cached

/-! ### The connection -/

/-- A connection under an installed request must not be closed. -/
def Owner.closeConnection (s : Owner) : Owner :=
  { s with
    native := s.native.clear, fault := s.fault || (s.native.slot && s.nativeRequest.installed) }

def Owner.finishConnection (s : Owner) : Owner :=
  { s with
    native := s.native.finish, fault := s.fault || (s.native.slot && s.nativeRequest.installed) }

def Owner.markClosed (s : Owner) : Owner := { s with status := .closed, busy := false }

def Owner.unregister (s : Owner) : Owner := { s with registered := false }

def markClosed : Cleaning Owner E Unit := act .free .free Owner.markClosed

def unregister : Cleaning Owner E Unit := act .free .free Owner.unregister

def destroyConnection : Cleaning Owner E Unit := do
  look fun s => Comp.when s.leased joinController
  protect (do markClosed; unregister)
    (protect (do detachOwnerRequest; releaseNative Owner.closeConnection Owner.finishConnection)
      (protect destroyCached (destroyChildren fun _ => true)))

/-! ### Transactions -/

def Owner.revoke (s : Owner) : Owner := { s with active := false }

def Owner.endTransaction (s : Owner) : Owner := { s with engineTransaction := false }

def Owner.readConnection (s : Owner) : Owner := { s with fault := s.fault || !s.native.slot }

def revokeAndDrain : Cleaning Owner E Unit := do
  act .free .free Owner.revoke
  look fun s => admitCleanup s.facade
  destroyChildren Child.transaction

/-- A rollback without a transaction in the engine changes nothing, and its status is not kept. -/
def rollbackIfBegun : Cleaning Owner E Unit :=
  look fun s => Comp.when s.begun
    (protect (act .free .free id) do
      act .free .free Owner.endTransaction
      act .free .free Owner.readConnection)

def rollback : Cleaning Owner E Unit := do
  revokeAndDrain
  rollbackIfBegun

/-! ### Temporary files -/

section Files

variable (sysError : E)

def Owner.dropFile (s : Owner) : Owner := { s with file := false }

def Owner.openWork (s : Owner) : Owner := { s with works := s.works + 1 }

def Owner.finishWork (s : Owner) : Owner := { s with works := s.works - 1 }

/-- A file that is gone has been removed. -/
def removeFile : Cleaning Owner E Unit :=
  look fun s =>
    if s.file && !s.removable then do
      point .free
      Comp.raise (.raised sysError)
    else act .free .free Owner.dropFile

/-- The shell of the work is known to this code alone. -/
def localFile (work : Cleaning Owner E Unit) : Cleaning Owner E Unit := do
  act .free .holding Owner.openWork
  protect (act .holding .free Owner.finishWork) work

def removeTemporary : Cleaning Owner E Unit := do
  look fun s => admitCleanup s.facade
  localFile (removeFile sysError)

/-- The cleanups that are registered. -/
inductive Cleanup
  | prepared (i : ℕ)
  | result (i : ℕ)
  | appender (i : ℕ)
  | connection
  | transaction
  | temporary
  deriving DecidableEq, Repr

def Cleanup.run : Cleanup → Cleaning Owner E Unit
  | .prepared i => cleanupPrepared i
  | .result i => destroyResult i
  | .appender i => cleanupAppender i
  | .connection => destroyConnection
  | .transaction => rollback
  | .temporary => removeTemporary sysError

end Files

end DuckdbMl.Interruption
