import DuckdbMl.Native.Heap
import DuckdbMl.Transition.System

/-!
# The native calls

The calls that make, use, close, finish and finalise slots. What the engine answers is given with
the call. A call may be interrupted where it releases the runtime: it then stops with what it has
acquired, which its slot still owns.

## Main definitions

* `Act`: the calls with their answers
* `openDatabase`, `execute`, `prepare`, …: work on a slot
* `finalize`: what the runtime does with an abandoned slot
* `call`, `native`: every call, and the system of all runs
* `aborts`: the states in which a call ends the process
-/

namespace DuckdbMl.Native

open Effects Transition

/-- A call on a slot that does nothing when the slot is empty. -/
def onSlot (s : Shell) (work : Call Unit) : Call Unit := fun h =>
  if h.slot s then work h else (.ok (), h)

/-- A call that the safe layer makes only on a full slot. -/
def withSlot (s : Shell) (work : Call Unit) : Call Unit := fun h =>
  if h.slot s then work h else (.error .refused, h)

/-- A call that the safe layer makes only in certain states. -/
def guarded (condition : Heap → Bool) (work : Call Unit) : Call Unit := fun h =>
  if condition h then work h else (.error .refused, h)

/-- None of the fields is set, since the safe layer has cleared them after the last call. -/
def unset (s : Shell) (fs : List Field) (h : Heap) : Bool :=
  match h.cells s with
  | some x => fs.all fun f => f ∉ x.held
  | none => true

/-- Work begins, fatal on a connection that has been closed. -/
def workBegin (c : Shell) : Call Unit := do
  let y ← deref c
  require .fatal (!y.closing)

def workBeginParent (s : Shell) : Call Unit := do
  match (← deref s).parent with
  | some c => workBegin c
  | none => pure ()

def takeIf (s : Shell) (f : Field) (answer : Bool) : Call Unit :=
  Comp.when answer (take s f)

/-- An engine handle is opened, once for each owner. -/
def openHandle (s : Shell) (f : Field) : Call Unit :=
  guarded (fun h => h.seen (.opened s) = 0) do
    take s f
    note (.opened s)

/-! ### Making slots -/

/-- A shell behind a new slot. -/
def allocate (s : Shell) (references : ℕ) (parent : Option Shell) : Call Unit :=
  guarded (fun h => s ∉ h.born) (Comp.modify fun h =>
    { h with
      cells := Function.update h.cells s (some (Cell.init references parent))
      slot := Function.update h.slot s true
      born := insert s h.born
      live := h.live + 1 })

/-- One more reference to a shell. -/
def addRef (q : Shell) : Call Unit := do
  let y ← deref q
  put q { y with references := y.references + 1 }

/-- A shell that retains its parent. -/
def allocateChild (s q : Shell) (references : ℕ) : Call Unit :=
  withSlot q (guarded (fun h => s ∉ h.born) do
    addRef q
    allocate s references (some q))

/-! ### Databases and connections -/

def openDatabase (d : ℕ) (interrupted config database : Bool) : Call Unit :=
  withSlot (.database d) (guarded (unset (.database d) [.path, .config, .database]) do
    take (.database d) .path
    if interrupted then pure ()
    else
      takeIf (.database d) .config config
      Comp.when database (openHandle (.database d) .database)
      drop (.database d) .config
      drop (.database d) .path)

def connect (c : ℕ) (ok : Bool) : Call Unit :=
  withSlot (.connection c) (guarded (unset (.connection c) [.connection]) do
    workBegin (.connection c)
    Comp.when ok (openHandle (.connection c) .connection))

/-- The fields of a statement that runs on a connection. -/
def workFields : List Field := [.sql, .extracted, .prepared, .result]

def execute (c : ℕ) (interrupted extracted prepared result : Bool) : Call Unit :=
  withSlot (.connection c) (guarded (unset (.connection c) workFields) do
    take (.connection c) .sql
    if interrupted then pure ()
    else
      workBegin (.connection c)
      takeIf (.connection c) .extracted extracted
      takeIf (.connection c) .prepared prepared
      takeIf (.connection c) .result result
      clearWork (.connection c))

def executeControl (c : ℕ) (admitted : Bool) : Call Unit :=
  withSlot (.connection c) (guarded (unset (.connection c) workFields) do
    workBegin (.connection c)
    takeIf (.connection c) .result admitted
    clearWork (.connection c))

def closeDatabase (d : ℕ) : Call Unit :=
  -- the safe layer closes a database only after its connections
  guarded (fun h => ∀ s ∈ h.born,
      (h.cells s).bind Cell.parent = some (.database d) → h.slot s = false)
    (onSlot (.database d) do
      close (.database d)
      databaseClear (.database d))

def finishDatabaseClose (d : ℕ) : Call Unit :=
  onSlot (.database d) do
    databaseUnref (some (.database d))
    setSlot (.database d) false

def closeConnection (c : ℕ) : Call Unit :=
  onSlot (.connection c) (connectionClear (.connection c))

def finishConnectionClose (c : ℕ) : Call Unit :=
  onSlot (.connection c) do
    connectionDelete (some (.connection c))
    setSlot (.connection c) false

/-! ### Prepared statements -/

def prepare (p : ℕ) (interrupted extracted prepared : Bool) : Call Unit :=
  withSlot (.prepared p) (guarded (unset (.prepared p) [.input, .extracted, .prepared]) do
    take (.prepared p) .input
    if interrupted then pure ()
    else
      workBeginParent (.prepared p)
      takeIf (.prepared p) .extracted extracted
      takeIf (.prepared p) .prepared prepared
      drop (.prepared p) .extracted
      drop (.prepared p) .input)

def bindString (p : ℕ) (interrupted : Bool) : Call Unit :=
  withSlot (.prepared p) (guarded (unset (.prepared p) [.input]) do
    take (.prepared p) .input
    if interrupted then pure ()
    else
      workBeginParent (.prepared p)
      drop (.prepared p) .input)

def executePrepared (p : ℕ) (admitted : Bool) : Call Unit :=
  withSlot (.prepared p) (guarded (unset (.prepared p) [.chunk, .vectors, .result]) do
    workBeginParent (.prepared p)
    takeIf (.prepared p) .result admitted)

def fetch (p : ℕ) (chunk vectors : Bool) : Call Unit :=
  withSlot (.prepared p) do
    workBeginParent (.prepared p)
    drop (.prepared p) .chunk
    takeIf (.prepared p) .chunk chunk
    -- the vector cache is allocated once for a result
    let x ← deref (.prepared p)
    takeIf (.prepared p) .vectors (chunk && vectors && .vectors ∉ x.held)

def closeResult (p : ℕ) : Call Unit := onSlot (.prepared p) (clearResult (.prepared p))

def closePrepared (p : ℕ) : Call Unit := onSlot (.prepared p) (clearPrepared (.prepared p))

def clearInput (p : ℕ) : Call Unit := onSlot (.prepared p) (drop (.prepared p) .input)

def finishPreparedClose (p : ℕ) : Call Unit :=
  onSlot (.prepared p) do
    deletePrepared (.prepared p)
    setSlot (.prepared p) false

/-! ### Appenders -/

def createAppender (a : ℕ) (interrupted appender types nullable : Bool) : Call Unit :=
  withSlot (.appender a) (guarded
    (unset (.appender a) [.schema, .table, .appender, .types, .nullable]) do
      take (.appender a) .schema
      take (.appender a) .table
      if interrupted then pure ()
      else
        workBeginParent (.appender a)
        takeIf (.appender a) .appender appender
        takeIf (.appender a) .types types
        takeIf (.appender a) .nullable nullable)

/-- Staging for rows that need `chunks` chunks, of which the engine allocates `granted`. -/
def stageBegin (a : ℕ) (logical staged : Bool) (chunks granted : ℕ) : Call Unit :=
  onSlot (.appender a) do
    let x ← deref (.appender a)
    if .appender ∈ x.held then
      takeIf (.appender a) .logical (logical && .logical ∉ x.held)
      if x.capacity < chunks then
        takeIf (.appender a) .staged (staged && .staged ∉ x.held)
        let y ← deref (.appender a)
        if .staged ∈ y.held then
          resize (.appender a) (y.capacity + min granted (chunks - x.capacity))

/-- The chunks kept between batches. -/
def stagedRetained : ℕ := 16

def appendStaged (a : ℕ) : Call Unit :=
  onSlot (.appender a) do
    let x ← deref (.appender a)
    if .appender ∈ x.held then
      workBeginParent (.appender a)
      if stagedRetained < x.capacity then resize (.appender a) stagedRetained

/-- The names are copied, and the new types and flags take the place of the old ones, whichever
pair is freed. No slot owns them in between: an exception from the runtime is left out here. -/
def selectColumns (a : ℕ) : Call Unit :=
  withSlot (.appender a) do
    acquired
    acquired
    acquired
    let x ← deref (.appender a)
    Comp.when (.logical ∈ x.held ∨ .staged ∈ x.held) (releaseStaging (.appender a))
    workBeginParent (.appender a)
    released
    released
    released

def closeAppender (a : ℕ) (flush : Bool) : Call Unit :=
  onSlot (.appender a) (closeNative (.appender a) flush)

def finishAppenderClose (a : ℕ) : Call Unit :=
  onSlot (.appender a) do
    deleteOwner (.appender a)
    setSlot (.appender a) false

/-! ### File work -/

/-- The file work retains the connection from now on. -/
def adopt (w c : Shell) : Call Unit :=
  withSlot c do
    addRef c
    let x ← deref w
    put w { x with parent := some c }
    workBegin c

/-- `publish_local_file`, alone or on a connection. -/
def publishLocalFile (w : ℕ) (c : Option ℕ) : Call Unit :=
  withSlot (.work w) (guarded (unset (.work w) [.source, .destination]) (guarded
    (fun h => (h.cells (.work w)).bind Cell.parent = none) do
      take (.work w) .source
      take (.work w) .destination
      match c with
      | none => pure ()
      | some c => adopt (.work w) (.connection c)))

def removeLocalFile (w : ℕ) : Call Unit :=
  withSlot (.work w) (guarded (unset (.work w) [.source]) (take (.work w) .source))

def finishLocalFileWork (w : ℕ) : Call Unit :=
  onSlot (.work w) do
    finishWork (.work w)
    setSlot (.work w) false

/-! ### Requests -/

def requestInstall (r c : ℕ) : Call Unit :=
  onSlot (.request r) do
    let x ← deref (.request r)
    if x.state = .fresh then
      onSlot (.connection c) do
        let y ← deref (.connection c)
        if !y.closing ∧ .connection ∈ y.held ∧ y.active.isNone then
          put (.connection c)
            { y with references := y.references + 1, active := some (.request r) }
          put (.request r) { x with parent := some (.connection c), state := .installed }

def requestReserve (r : ℕ) (reserved : Bool) : Call Unit :=
  onSlot (.request r) do
    let x ← deref (.request r)
    put (.request r) { x with reserved := reserved }

def requestUninstallSlot (r : ℕ) : Call Unit :=
  onSlot (.request r) do
    let _ ← requestUninstall (.request r)

/-- A request that is not installed is freed, and its slot emptied. -/
def requestDispose (r : ℕ) : Call Unit :=
  onSlot (.request r) do
    let x ← deref (.request r)
    if x.state ≠ .installed then
      setSlot (.request r) false
      free (.request r)

/-! ### Finalisation -/

def finalizeRequest (r : ℕ) : Call Unit := do
  let x ← deref (.request r)
  Comp.when (x.state = .installed) do
    let result ← requestUninstall (.request r)
    require .fatal (result = .uninstalled)
  setSlot (.request r) false
  free (.request r)

/-- The finaliser of a slot. -/
def finalize (s : Shell) : Call Unit :=
  onSlot s do
    Comp.modify fun h => { h with fallback := h.fallback + 1 }
    match s with
    | .database d => finishDatabaseClose d
    | .connection c => finishConnectionClose c
    | .prepared p => finishPreparedClose p
    | .appender a => finishAppenderClose a
    | .work w => finishLocalFileWork w
    | .request r => finalizeRequest r

/-! ### Runs -/

/-- The calls, with what the engine and the runtime answer. -/
inductive Act
  | databaseOwner (d : ℕ)
  | connectionOwner (c d : ℕ)
  | preparedOwner (p c : ℕ)
  | appenderOwner (a c : ℕ)
  | localFileWork (w : ℕ)
  | requestCreate (r : ℕ)
  | openDatabase (d : ℕ) (interrupted config database : Bool)
  | connect (c : ℕ) (ok : Bool)
  | execute (c : ℕ) (interrupted extracted prepared result : Bool)
  | executeControl (c : ℕ) (admitted : Bool)
  | clearWork (c : ℕ)
  | closeDatabase (d : ℕ)
  | finishDatabaseClose (d : ℕ)
  | closeConnection (c : ℕ)
  | finishConnectionClose (c : ℕ)
  | prepare (p : ℕ) (interrupted extracted prepared : Bool)
  | bindString (p : ℕ) (interrupted : Bool)
  | executePrepared (p : ℕ) (admitted : Bool)
  | fetch (p : ℕ) (chunk vectors : Bool)
  | closeResult (p : ℕ)
  | closePrepared (p : ℕ)
  | clearInput (p : ℕ)
  | finishPreparedClose (p : ℕ)
  | createAppender (a : ℕ) (interrupted appender types nullable : Bool)
  | stageBegin (a : ℕ) (logical staged : Bool) (chunks granted : ℕ)
  | appendStaged (a : ℕ)
  | selectColumns (a : ℕ)
  | closeAppender (a : ℕ) (flush : Bool)
  | finishAppenderClose (a : ℕ)
  | publishLocalFile (w : ℕ) (c : Option ℕ)
  | removeLocalFile (w : ℕ)
  | finishLocalFileWork (w : ℕ)
  | requestInstall (r c : ℕ)
  | requestReserve (r : ℕ) (reserved : Bool)
  | requestUninstall (r : ℕ)
  | requestDispose (r : ℕ)
  | finalize (s : Shell)

def call : Act → Call Unit
  | .databaseOwner d => allocate (.database d) 1 none
  | .connectionOwner c d => allocateChild (.connection c) (.database d) 1
  | .preparedOwner p c => allocateChild (.prepared p) (.connection c) 0
  | .appenderOwner a c => allocateChild (.appender a) (.connection c) 0
  | .localFileWork w => allocate (.work w) 0 none
  | .requestCreate r => allocate (.request r) 0 none
  | .openDatabase d interrupted config database => openDatabase d interrupted config database
  | .connect c ok => connect c ok
  | .execute c interrupted extracted prepared result =>
    execute c interrupted extracted prepared result
  | .executeControl c admitted => executeControl c admitted
  | .clearWork c => onSlot (.connection c) (clearWork (.connection c))
  | .closeDatabase d => closeDatabase d
  | .finishDatabaseClose d => finishDatabaseClose d
  | .closeConnection c => closeConnection c
  | .finishConnectionClose c => finishConnectionClose c
  | .prepare p interrupted extracted prepared => prepare p interrupted extracted prepared
  | .bindString p interrupted => bindString p interrupted
  | .executePrepared p admitted => executePrepared p admitted
  | .fetch p chunk vectors => fetch p chunk vectors
  | .closeResult p => closeResult p
  | .closePrepared p => closePrepared p
  | .clearInput p => clearInput p
  | .finishPreparedClose p => finishPreparedClose p
  | .createAppender a interrupted appender types nullable =>
    createAppender a interrupted appender types nullable
  | .stageBegin a logical staged chunks granted => stageBegin a logical staged chunks granted
  | .appendStaged a => appendStaged a
  | .selectColumns a => selectColumns a
  | .closeAppender a flush => closeAppender a flush
  | .finishAppenderClose a => finishAppenderClose a
  | .publishLocalFile w c => publishLocalFile w c
  | .removeLocalFile w => removeLocalFile w
  | .finishLocalFileWork w => finishLocalFileWork w
  | .requestInstall r c => requestInstall r c
  | .requestReserve r reserved => requestReserve r reserved
  | .requestUninstall r => requestUninstallSlot r
  | .requestDispose r => requestDispose r
  | .finalize s => finalize s

/-! ### Aborts -/

namespace Heap

variable (h : Heap)

def closing (s : Shell) : Bool := (h.cells s).any Cell.closing

def parentClosing (s : Shell) : Bool := ((h.cells s).bind Cell.parent).any h.closing

def holds (s : Shell) (f : Field) : Bool := (h.cells s).any fun x => f ∈ x.held

def installed (s : Shell) : Bool := (h.cells s).any fun x => x.state = .installed

end Heap

/-- The native state before the first call. -/
def Heap.init (initial : ℤ) : Heap :=
  ⟨fun _ => none, fun _ => false, ∅, initial, 0, fun _ => 0⟩

/-- **All runs of calls.** A call that stops ends the run. -/
def native (initial : ℤ) : System Heap Act where
  start h := h = Heap.init initial
  step h a := match call a h with
    | (.ok _, h') => some h'
    | (.error _, _) => none

end DuckdbMl.Native
