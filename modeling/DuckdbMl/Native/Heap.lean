import DuckdbMl.Computation.Basic
import Mathlib.Data.Finset.Card
import Mathlib.Data.Int.Notation
import Mathlib.Logic.Function.Basic

/-!
# The native shells

Every owner of the library is a native allocation, its shell, behind a custom block of the
runtime, its slot. A shell keeps its parent by a counted reference, so that slots may be closed or
finalised in any order. A native call runs to its end before the next one starts.

## Main definitions

* `Shell`, `Field`, `Cell`, `Heap`: the allocations, and the counter of live resources
* `databaseUnref`, `connectionDelete`, `deletePrepared`, `deleteOwner`: the releases
* `requestUninstall`: the request leaves its connection
-/

namespace DuckdbMl.Native

open Effects

/-- The native allocations, each with the slot of its number. -/
inductive Shell
  | database (n : ℕ)
  | connection (n : ℕ)
  | prepared (n : ℕ)
  | appender (n : ℕ)
  | work (n : ℕ)
  | request (n : ℕ)
  deriving DecidableEq

/-- What a shell may hold, each counted as one live resource. -/
inductive Field
  | database
  | config
  | path
  | connection
  | sql
  | extracted
  | prepared
  | result
  | chunk
  | vectors
  | input
  | appender
  | staged
  | logical
  | schema
  | table
  | types
  | nullable
  | source
  | destination
  deriving DecidableEq

inductive RequestState
  | fresh
  | installed
  | detached
  deriving DecidableEq

/-- A shell: its counted references (of a database or a connection), its parent (of a request, the
connection it is installed on), what it holds, an appender's staged chunks, whether a database or a
connection has been closed, which request is active on a connection, and the state of a request.
-/
structure Cell where
  references : ℕ
  parent : Option Shell
  held : Finset Field
  capacity : ℕ
  closing : Bool
  active : Option Shell
  state : RequestState
  reserved : Bool

def Cell.init (references : ℕ) (parent : Option Shell) : Cell :=
  ⟨references, parent, ∅, 0, false, none, .fresh, false⟩

/-- What the calls have done so far: a shell is freed, an engine handle is opened, or is closed or
disconnected. -/
inductive Event
  | freed (s : Shell)
  | opened (s : Shell)
  | cleared (s : Shell)
  deriving DecidableEq

/-- The native state: the allocated cells, the slots that hold their shell, the shells ever
allocated, the counters of live resources and of finalised slots, and how often an event has been
seen. -/
structure Heap where
  cells : Shell → Option Cell
  slot : Shell → Bool
  born : Finset Shell
  live : ℤ
  fallback : ℕ
  seen : Event → ℕ

/-- How a call may stop: on a freed shell, by `caml_fatal_error`, or since the safe layer does not
make the call in this state. -/
inductive Stop
  | fault
  | fatal
  | refused
  deriving DecidableEq

/-- A native call, or a part of one. -/
abbrev Call (α : Type) := Comp Heap Stop α

/-! ### Cells and counters -/

def deref (s : Shell) : Call Cell := fun h =>
  match h.cells s with
  | some x => (.ok x, h)
  | none => (.error .fault, h)

def Heap.put (h : Heap) (s : Shell) (x : Cell) : Heap :=
  { h with cells := Function.update h.cells s (some x) }

@[simp] theorem Heap.put_self (h : Heap) (s : Shell) (x : Cell) : (h.put s x).cells s = some x :=
  Function.update_self ..

theorem Heap.put_of_ne {s t : Shell} (ht : t ≠ s) (h : Heap) (x : Cell) :
    (h.put s x).cells t = h.cells t :=
  Function.update_of_ne ht _ _

def put (s : Shell) (x : Cell) : Call Unit := Comp.modify fun h => h.put s x

def setSlot (s : Shell) (full : Bool) : Call Unit :=
  Comp.modify fun h => { h with slot := Function.update h.slot s full }

def acquired : Call Unit := Comp.modify fun h => { h with live := h.live + 1 }

def released : Call Unit := Comp.modify fun h => { h with live := h.live - 1 }

def note (e : Event) : Call Unit :=
  Comp.modify fun h => { h with seen := Function.update h.seen e (h.seen e + 1) }

/-- Stops unless the condition holds. -/
def require (stop : Stop) (condition : Bool) : Call Unit :=
  if condition then pure () else Comp.raise stop

/-- `free`, of a shell that counts as a live resource. -/
def free (s : Shell) : Call Unit := do
  let _ ← deref s
  Comp.modify fun h => { h with cells := Function.update h.cells s none }
  note (.freed s)
  released

/-- The field of the engine handle. -/
def Shell.handle : Shell → Option Field
  | .database _ => some .database
  | .connection _ => some .connection
  | _ => none

/-- A field that is set: destroyed, cleared and counted. -/
def drop (s : Shell) (f : Field) : Call Unit := do
  let x ← deref s
  if f ∈ x.held then
    put s { x with held := x.held.erase f }
    if s.handle = some f then note (.cleared s)
    released

def drops (s : Shell) : List Field → Call Unit
  | [] => pure ()
  | f :: fs => do
    drop s f
    drops s fs

/-- A field that a call sets, and counts. -/
def take (s : Shell) (f : Field) : Call Unit := do
  let x ← deref s
  put s { x with held := insert f x.held }
  acquired

/-- An owner is closed for good. -/
def close (s : Shell) : Call Unit := do
  let x ← deref s
  put s { x with closing := true }

/-! ### Databases and connections -/

def databaseClear (d : Shell) : Call Unit := drops d [.database, .config, .path]

def databaseUnref : Option Shell → Call Unit
  | none => pure ()
  | some d => do
    let x ← deref d
    put d { x with references := x.references - 1 }
    if x.references = 1 then
      databaseClear d
      free d

def clearWork (c : Shell) : Call Unit := drops c [.result, .prepared, .extracted, .sql]

/-- `connection_clear`, fatal while a request is active. -/
def connectionClear (c : Shell) : Call Unit := do
  let x ← deref c
  require .fatal x.active.isNone
  close c
  clearWork c
  drop c .connection

def connectionDelete : Option Shell → Call Unit
  | none => pure ()
  | some c => do
    let x ← deref c
    put c { x with references := x.references - 1 }
    if x.references = 1 then
      connectionClear c
      databaseUnref x.parent
      free c

/-- The parent's phase is updated around work on a child. -/
def touchParent (x : Cell) : Call Unit :=
  match x.parent with
  | some c => do
    let _ ← deref c
    pure ()
  | none => pure ()

/-! ### Prepared statements, appenders and file work -/

def clearResult (p : Shell) : Call Unit := do
  touchParent (← deref p)
  drops p [.chunk, .vectors, .result]

def clearPrepared (p : Shell) : Call Unit := do
  clearResult p
  drops p [.prepared, .extracted, .input]

def deletePrepared (p : Shell) : Call Unit := do
  let x ← deref p
  clearPrepared p
  connectionDelete x.parent
  free p

/-- The staging chunks of an appender are created or destroyed one by one. -/
def resize (a : Shell) (chunks : ℕ) : Call Unit := do
  let x ← deref a
  put a { x with capacity := chunks }
  Comp.modify fun h => { h with live := h.live + chunks - x.capacity }

def releaseStaging (a : Shell) : Call Unit := do
  resize a 0
  drops a [.staged, .logical]

/-- A flush is work on the connection, fatal once that has been closed. -/
def flushBegin (x : Cell) (flush : Bool) : Call Unit :=
  match x.parent with
  | some c => do
    let y ← deref c
    require .fatal (!flush || !y.closing)
  | none => pure ()

/-- `close_native` of an appender. -/
def closeNative (a : Shell) (flush : Bool) : Call Unit := do
  let x ← deref a
  if .appender ∈ x.held then
    flushBegin x flush
    drop a .appender
    releaseStaging a

def deleteOwner (a : Shell) : Call Unit := do
  let x ← deref a
  closeNative a false
  releaseStaging a
  drops a [.schema, .table, .types, .nullable]
  connectionDelete x.parent
  free a

/-- `finish` of a file work. -/
def finishWork (w : Shell) : Call Unit := do
  let x ← deref w
  drops w [.source, .destination]
  connectionDelete x.parent
  free w

/-! ### Requests -/

inductive UninstallResult
  | uninstalled
  | deliveryPending
  | notInstalled
  deriving DecidableEq

/-- `native_request_uninstall`, between calls: the guard is free and no work is under way. -/
def requestUninstall (r : Shell) : Call UninstallResult := do
  let x ← deref r
  match x.state, x.parent with
  | .installed, some c =>
    let y ← deref c
    if x.reserved then return .deliveryPending
    else
      require .fatal (y.active = some r)
      put c { y with active := none }
      put r { x with parent := none, state := .detached }
      connectionDelete (some c)
      return .uninstalled
  | _, _ => return .notInstalled

end DuckdbMl.Native
