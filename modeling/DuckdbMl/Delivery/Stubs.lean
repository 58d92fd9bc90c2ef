import DuckdbMl.Delivery.Owner

/-!
# The stubs that work on a connection

Each stub is the sequence of the sections that it runs under the guard, of the functions of the
engine that it calls, and of its transitions of the runtime. What the engine answers decides how it
goes on. The contents of statements, results and chunks are left out.

## Main definitions

* `Call`, `Window`: the engine's functions, and when each may be called
* `Code`: what a stub does
* `Stub`, `Stub.code`: the stubs
-/

namespace DuckdbMl.Delivery

/-- The functions of the engine that the stubs call on a connection and on what belongs to it, and
`link` of the file system. -/
inductive Call
  | connect
  | query
  | rollback
  | beginTransaction
  | commit
  | extract
  | prepare
  | execute
  | fetch
  | appendChunk
  | flushAppender
  | closeAppender
  | bind
  | bindValue
  | clearBindings
  | createAppender
  | columnType
  | addColumn
  | link
  | destroyResult
  | destroyPrepared
  | destroyExtracted
  | destroyChunk
  | destroyValue
  | destroyErrorData
  | destroyLogicalType
  | clearAppender
  | destroyAppender
  | disconnect
  deriving DecidableEq, Repr

/-- When a function may be called: in an admitted call that may be interrupted, in an admitted call
that may not, in work that asks for no admission, or in a cleanup. -/
inductive Window
  | user
  | scalar
  | work
  | cleanup
  deriving DecidableEq, Repr

def Call.window : Call → Window
  | .beginTransaction | .commit | .extract | .prepare | .execute | .fetch | .appendChunk
  | .flushAppender | .closeAppender => .user
  | .bind | .bindValue | .clearBindings | .createAppender | .columnType | .addColumn
  | .link => .scalar
  | .connect | .query | .rollback => .work
  | .destroyResult | .destroyPrepared | .destroyExtracted | .destroyChunk | .destroyValue
  | .destroyErrorData | .destroyLogicalType | .clearAppender | .destroyAppender
  | .disconnect => .cleanup

/-- What a call leaves: an object to be destroyed, and whether the stub takes it for a success. -/
structure Answer where
  object : Bool
  ok : Bool
  deriving DecidableEq, Repr

/-- What a stub does, from its entry to its return. -/
inductive Code
  | done
  | enterBlocking (k : Code)
  | leaveBlocking (k : Code)
  | workBegin (k : Code)
  | workEnd (k : Code)
  | callBegin (interruptible : Bool) (k : Admission → Code)
  | callEnd (k : Code)
  | cleanupBegin (runtime : Runtime) (k : Code)
  | cleanupEnd (runtime : Runtime) (k : Code)
  | closeBegin (runtime : Runtime) (k : Code)
  | call (c : Call) (k : Answer → Code)

namespace Code

/-- A call whose answer does not matter. -/
def run (c : Call) (k : Code) : Code := .call c fun _ => k

/-- An object is destroyed if there is one. -/
def destroy (there : Bool) (c : Call) (k : Code) : Code := if there then run c k else k

/-- Work with the runtime released. -/
def blocking (k : Code → Code) : Code := .enterBlocking (k (.leaveBlocking .done))

/-- Foreign work with the runtime released. -/
def working (k : Code → Code) : Code := blocking fun l => .workBegin (k (.workEnd l))

def cleaning (runtime : Runtime) (k : Code → Code) (l : Code) : Code :=
  .cleanupBegin runtime (k (.cleanupEnd runtime l))

/-- `admit_user` and the call; there is no answer when it is not admitted. -/
def userCall (failed : Bool) (c : Call) (k : Option Answer → Code) : Code :=
  if failed then k none
  else
    .callBegin true fun
      | .admitted => .call c fun a => .callEnd (k (some a))
      | .cancelled => k none

/-- `admit_scalar` and the call. -/
def scalarCall (failed : Bool) (c : Call) (k : Option Answer → Code) : Code :=
  if failed then k none
  else
    -- the next section ends the call: there is none of its own for that
    .callBegin false fun
      | .admitted => .call c fun a => k (some a)
      | .cancelled => k none

end Code

/-- Whether an appender has failed after a call that it has been admitted to or not. -/
def failed : Option Answer → Bool
  | some a => !a.ok
  | none => true

def object : Option Answer → Bool
  | some a => a.object
  | none => false

open Code

/-! ### Connections -/

/-- What the owner of a connection holds between the calls of a stub. -/
structure Held where
  result : Bool
  prepared : Bool
  extracted : Bool
  deriving DecidableEq, Repr

def clearWork (runtime : Runtime) (h : Held) (l : Code) : Code :=
  cleaning runtime (fun l => destroy h.result .destroyResult (destroy h.prepared .destroyPrepared
    (destroy h.extracted .destroyExtracted l))) l

def connectionClear (runtime : Runtime) (h : Held) (connected : Bool) (l : Code) : Code :=
  .closeBegin runtime (cleaning runtime (fun l => clearWork runtime h
    (destroy connected .disconnect l)) l)

/-- `last` tells whether this was the last reference. -/
def connectionDelete (last : Bool) (h : Held) (connected : Bool) (l : Code) : Code :=
  if last then connectionClear .held h connected l else l

def connect : Code := working fun l => run .connect l

def executeControlled (l : Held → Code) : Code := run .query (l ⟨true, false, false⟩)

/-- Extraction, preparation and execution; the last of these goes over to the cleanup directly. -/
def executeAdmitted (finish : Held → Code) (finishCleaning : Held → Code) : Code :=
  userCall false .extract fun a =>
    if failed a then finish ⟨false, false, object a⟩
    else
      userCall false .prepare fun b =>
        if failed b then finish ⟨false, object b, object a⟩
        else
          .callBegin true fun
            | .admitted => .call .execute fun _ =>
              -- no `callEnd`: what follows is already closed to the controller
              .cleanupBegin .released (finishCleaning ⟨true, object b, object a⟩)
            | .cancelled => finish ⟨false, object b, object a⟩

/-- The end of an execution, in its cleanup. -/
def finishExecution (h : Held) (l : Code) : Code :=
  clearWork .released h (.cleanupEnd .released l)

def execute (control : Bool) : Code :=
  working fun l =>
    if control then
      executeControlled fun h => .cleanupBegin .released (finishExecution h l)
    else
      executeAdmitted (fun h => .cleanupBegin .released (finishExecution h l))
        fun h => finishExecution h l

inductive Control
  | begin
  | commit
  | rollback
  deriving DecidableEq, Repr

def Control.call : Control → Call
  | .begin => .beginTransaction
  | .commit => .commit
  | .rollback => .rollback

/-- Only a rollback is not asked for its admission. -/
def executeControl (control : Control) : Code :=
  working fun l =>
    match control with
    -- a transaction is rolled back after a cancellation too
    | .rollback => run .rollback (.cleanupBegin .released (finishExecution ⟨true, false, false⟩ l))
    | .begin | .commit =>
      .callBegin true fun
        | .admitted => run control.call
          (.cleanupBegin .released (finishExecution ⟨true, false, false⟩ l))
        | .cancelled => .cleanupBegin .released (finishExecution ⟨false, false, false⟩ l)

def admitLocalFile : Code := working fun l => .callBegin false fun _ => l

def closeConnection (h : Held) (connected : Bool) : Code :=
  blocking fun l => connectionClear .released h connected l

def publishLocalFileAdmitted : Code :=
  working fun l => .callBegin false fun
    | .admitted => run .link l
    | .cancelled => l

/-! ### Prepared statements -/

/-- What a prepared statement holds between the calls of a stub. -/
structure Prepared where
  chunk : Bool
  result : Bool
  prepared : Bool
  extracted : Bool
  deriving DecidableEq, Repr

def clearResult (runtime : Runtime) (p : Prepared) (l : Code) : Code :=
  cleaning runtime (fun l => destroy p.chunk .destroyChunk (destroy p.result .destroyResult l)) l

def clearPrepared (runtime : Runtime) (p : Prepared) (l : Code) : Code :=
  cleaning runtime (fun l => clearResult runtime p (destroy p.prepared .destroyPrepared
    (destroy p.extracted .destroyExtracted l))) l

def prepare : Code :=
  working fun l =>
    let finish extracted :=
      cleaning .released (fun l => destroy extracted .destroyExtracted l) l
    userCall false .extract fun a =>
      if failed a then finish (object a)
      else userCall false .prepare fun _ => finish (object a)

def executePrepared : Code := working fun l => userCall false .execute fun _ => l

def fetch (chunk : Bool) : Code :=
  working fun l =>
    -- the chunk of the fetch before
    cleaning .released (fun l => destroy chunk .destroyChunk l) (userCall false .fetch fun _ => l)

def closeResult (p : Prepared) : Code := blocking fun l => clearResult .released p l

def closePrepared (p : Prepared) : Code := blocking fun l => clearPrepared .released p l

/-- Every scalar but the ones that are made into a value of the engine first. -/
def bindScalar : Code := working fun l => scalarCall false .bind fun _ => l

/-- `temporal` tells whether a value of the engine has been made. -/
def bindTemporal (temporal : Bool) : Code :=
  working fun l =>
    .callBegin false fun
      | .admitted =>
        if temporal then
          -- the value is destroyed whether it has been bound or not
          scalarCall false .bindValue fun _ => cleaning .released (fun l => run .destroyValue l) l
        else l
      | .cancelled => l

def reset : Code := working fun l => scalarCall false .clearBindings fun _ => l

/-! ### Appenders -/

/-- What an appender keeps for its staging: chunks, and the types of its columns. -/
structure Staging where
  chunks : ℕ
  types : ℕ
  deriving DecidableEq, Repr

def times (n : ℕ) (c : Call) (l : Code) : Code :=
  match n with
  | 0 => l
  | n + 1 => run c (times n c l)

def releaseStaging (s : Staging) (l : Code) : Code :=
  times s.chunks .destroyChunk (times s.types .destroyLogicalType l)

/-- A failure is read of its error data, which is destroyed in a cleanup of its own. -/
def check (runtime : Runtime) (a : Answer) (l : Code) : Code :=
  if !a.ok && a.object then cleaning runtime (fun l => run .destroyErrorData l) l else l

def checkAnswer (a : Option Answer) (l : Code) : Code :=
  match a with
  | some a => check .released a l
  | none => l

def destroyNative (runtime : Runtime) (s : Staging) (l : Code) : Code :=
  cleaning runtime (fun l => .call .clearAppender fun a => check runtime a
    (run .destroyAppender (releaseStaging s l))) l

/-- `flush` tells whether a close was asked to flush an appender that has not failed. -/
def closeNative (appender flush : Bool) (runtime : Runtime) (s : Staging) (l : Code) : Code :=
  if appender then
    if flush then
      -- only the flush is foreign work, and the cleanup comes after it
      .workBegin (userCall false .closeAppender fun a => checkAnswer a
        (.workEnd (destroyNative runtime s l)))
    else destroyNative runtime s l
  else l

/-- The catalog of the engine: whether its name could be copied, the number of the columns, whether
the appender has as many, and whether the schema could be allocated. -/
structure Metadata where
  catalog : Bool
  columns : ℕ
  agrees : Bool
  allocated : Bool
  deriving DecidableEq, Repr

/-- The types of `n` columns, as long as the calls are admitted. -/
def columnTypes (n : ℕ) (l : Code) : Code :=
  match n with
  | 0 => l
  | n + 1 => scalarCall false .columnType fun a =>
    match a with
    | some _ => cleaning .released (fun l => run .destroyLogicalType l) (columnTypes n l)
    | none => l

/-- The types of the columns, once there is an appender. -/
def appenderTypes (m : Metadata) (isFailed : Bool) (l : Code) : Code :=
  if isFailed then l
  else
    .callBegin false fun
      | .cancelled => l
      | .admitted => if m.agrees && m.allocated then columnTypes m.columns l else l

/-- The appender and the types of its columns. -/
def appenderSchema (m : Metadata) (isFailed : Bool) (l : Code) : Code :=
  if isFailed then l
  else
    .callBegin false fun
      | .cancelled => l
      | .admitted =>
        if m.catalog then
          scalarCall false .createAppender fun a => checkAnswer a (appenderTypes m (failed a) l)
        else appenderTypes m true l

/-- The second chunk of the metadata, which a supported table does not have. -/
def extraChunk (isFailed : Bool) (k : Bool → Code) : Code :=
  userCall isFailed .fetch fun a =>
    if object a then cleaning .released (fun l => run .destroyChunk l) (k true)
    else k (failed a)

def createAppender (m : Metadata) : Code :=
  working fun l =>
    userCall false .extract fun a =>
    userCall (failed a) .prepare fun b =>
    -- the schema and the table
    scalarCall (failed b) .bind fun c =>
    scalarCall (failed c) .bind fun d =>
    userCall (failed d) .execute fun e =>
    userCall (failed e) .fetch fun f =>
    extraChunk (failed f) fun isFailed =>
    appenderSchema m isFailed
      (cleaning .released (fun l => destroy (object f) .destroyChunk (run .destroyResult
        (destroy (object b) .destroyPrepared (destroy (object a) .destroyExtracted l)))) l)

/-- The staged chunks, up to the first that is not admitted or fails. -/
def appendChunks (n : ℕ) (isFailed : Bool) (l : Code) : Code :=
  match n with
  | 0 => l
  | n + 1 => userCall isFailed .appendChunk fun a => checkAnswer a (appendChunks n (failed a) l)

/-- The chunks kept between batches. -/
def stagedRetained : ℕ := 16

def appendStaged (chunks capacity : ℕ) (isFailed : Bool) : Code :=
  working fun l =>
    appendChunks chunks isFailed
      (if stagedRetained < capacity then
        cleaning .released (fun l => times (capacity - stagedRetained) .destroyChunk l) l
      else l)

def flushAppender (isFailed : Bool) : Code :=
  working fun l => userCall isFailed .flushAppender fun a => checkAnswer a l

def closeAppender (appender flush : Bool) (s : Staging) : Code :=
  blocking fun l => closeNative appender flush .released s l

def addColumns (n : ℕ) (isFailed : Bool) (l : Code) : Code :=
  match n with
  | 0 => l
  | n + 1 => scalarCall isFailed .addColumn fun a => checkAnswer a (addColumns n (failed a) l)

/-- The staging follows the columns; `staged` tells whether there is any. -/
def restage (staged : Bool) (s : Staging) (l : Code) : Code :=
  if staged then cleaning .released (fun l => releaseStaging s l) l else l

def selectColumns (n : ℕ) (isFailed staged : Bool) (s : Staging) : Code :=
  blocking fun l => restage staged s (.workBegin (addColumns n isFailed (.workEnd l)))

/-! ### The stubs -/

/-- The stubs, each with what it finds in its owner. The stubs that finish a close, and the
finalizers, run with the runtime held; `last` tells whether they give up the last reference to the
connection, which held `h`. -/
inductive Stub
  | connect
  | execute (control : Bool)
  | executeControl (control : Control)
  | admitLocalFile
  | publishLocalFileAdmitted
  | clearWork (h : Held)
  | prepare
  | executePrepared
  | fetch (chunk : Bool)
  | bindScalar
  | bindTemporal (temporal : Bool)
  | reset
  | closeResult (p : Prepared)
  | finishResultClose (p : Prepared)
  | closePrepared (p : Prepared)
  | finishPreparedClose (p : Prepared) (last : Bool) (h : Held) (connected : Bool)
  | createAppender (m : Metadata)
  | appendStaged (chunks capacity : ℕ) (isFailed : Bool)
  | flushAppender (isFailed : Bool)
  | selectColumns (n : ℕ) (isFailed staged : Bool) (s : Staging)
  | closeAppender (appender flush : Bool) (s : Staging)
  | finishAppenderClose (appender : Bool) (s : Staging) (last : Bool) (h : Held) (connected : Bool)
  | closeConnection (h : Held) (connected : Bool)
  | finishConnectionClose (last : Bool) (h : Held) (connected : Bool)
  deriving DecidableEq, Repr

def Stub.code : Stub → Code
  | .connect => Delivery.connect
  | .execute control => Delivery.execute control
  | .executeControl control => Delivery.executeControl control
  | .admitLocalFile => Delivery.admitLocalFile
  | .publishLocalFileAdmitted => Delivery.publishLocalFileAdmitted
  | .clearWork h => Delivery.clearWork .held h .done
  | .prepare => Delivery.prepare
  | .executePrepared => Delivery.executePrepared
  | .fetch chunk => Delivery.fetch chunk
  | .bindScalar => Delivery.bindScalar
  | .bindTemporal temporal => Delivery.bindTemporal temporal
  | .reset => Delivery.reset
  | .closeResult p => Delivery.closeResult p
  | .finishResultClose p => clearResult .held p .done
  | .closePrepared p => Delivery.closePrepared p
  | .finishPreparedClose p last h connected =>
    clearPrepared .held p (connectionDelete last h connected .done)
  | .createAppender m => Delivery.createAppender m
  | .appendStaged chunks capacity isFailed => Delivery.appendStaged chunks capacity isFailed
  | .flushAppender isFailed => Delivery.flushAppender isFailed
  | .selectColumns n isFailed staged s => Delivery.selectColumns n isFailed staged s
  | .closeAppender appender flush s => Delivery.closeAppender appender flush s
  | .finishAppenderClose appender s last h connected =>
    closeNative appender false .held s (connectionDelete last h connected .done)
  | .closeConnection h connected => Delivery.closeConnection h connected
  | .finishConnectionClose last h connected => connectionDelete last h connected .done

end DuckdbMl.Delivery
