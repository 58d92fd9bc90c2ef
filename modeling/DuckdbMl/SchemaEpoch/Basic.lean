import DuckdbMl.Transition.System
import Mathlib.Logic.Function.Basic

/-!
# Schema epoch: the connections of one process over a catalog

Every connection of the process runs the stubs of `resource_stubs.c` and `prepared_stubs.c` and
the statement layer of `query.ml` over one catalog and one process-wide schema epoch. An epoch
increment, an epoch read and the engine's own work are separate steps, in the order the stubs
perform them, so the steps of different connections interleave between any two of them.

The engine is a parameter: `Language` gives the parameter types it infers for a statement in a
catalog, and the statement's kind. A change of the catalog is any function; outside a
transaction it becomes visible when the CREATE/ALTER/DROP that makes it finishes, inside one when
the transaction commits. A transaction's snapshot starts at its first catalog access.

## Main definitions

* `Session`: one connection, with its transaction, its prepared statements and its position `Pc`
* `Session.step`: one step of a connection
* `World`, `system`: the connections over the catalog and the epoch
* `Unannounced`: a change is visible and the increment that follows it is still owed
-/

namespace DuckdbMl.SchemaEpoch

open Transition

/-- What the engine infers for a statement: its parameter types in a catalog (none when it does
not prepare there), and whether it is a CREATE, ALTER or DROP (`duckdb_ml_changes_schema`). -/
structure Language (Cat Sql Ty : Type) where
  parameterTypes : Sql → Cat → Option (List Ty)
  changesSchema : Sql → Bool

variable {Cat Sql Ty κ : Type}

/-- A prepared statement: what `Query.register` records of it. `transaction` tells a statement
prepared through a transaction, which is closed at its settlement. -/
structure Prepared (Sql Ty : Type) where
  sql : Sql
  parameterTypes : List Ty
  validatedEpoch : Option ℕ
  transaction : Bool

/-- How an execution established that its parameter types are current. -/
inductive Validation
  | noParameters
  | checked
  | skipped (epoch : ℕ)

/-- What follows the settlement of a transaction. -/
inductive After (Cat : Type)
  | idle
  | publish (n : ℕ) (snapshot : Cat)
  | abort

/-- The position of a connection between two steps. -/
inductive Pc (Cat Sql Ty : Type)
  | idle
  | closed
  /-- `schema_enter` is done and the engine has not run the CREATE/ALTER/DROP. -/
  | entered
  /-- The engine has run it; `schema_leave` is owed. -/
  | executed (visible : Bool)
  /-- The engine has run COMMIT or ROLLBACK; `schema_leave` is owed when the flag is set. -/
  | settled (visible : Bool) (after : After Cat)
  | preparing (sql : Sql) (before : ℕ)
  | prepared (sql : Sql) (before : ℕ) (types : List Ty)
  | beginning (n : ℕ)
  | validating (n : ℕ)
  | stale (n : ℕ)
  | checking (n : ℕ) (before : ℕ)
  | matched (n : ℕ) (before : ℕ)
  | ready (n : ℕ) (validation : Validation)
  | running (n : ℕ) (validation : Validation)
  | ran (n : ℕ) (validation : Validation) (ok : Bool) (snapshot : Cat)
  | rechecking (n : ℕ) (validation : Validation) (snapshot : Cat)
  | comparing (n : ℕ) (snapshot : Cat)
  | finishing (n : ℕ) (snapshot : Cat)
  | aborting

/-- The choices of a step: what is called from `idle`, and what the engine answers. -/
inductive Act (Cat Sql : Type)
  | begin
  | commit (ok : Bool)
  | rollback (ok : Bool)
  | alter
  | run (change : Option (Cat → Cat))
  | prepare (sql : Sql)
  | register (n : ℕ)
  | execute (n : ℕ)
  | next
  | fail

/-- One connection: its position, the transaction the engine has open on it (`explicit` when it is
the user's), the snapshot and the changes of that transaction, the flag `schema_dirty`, and its
prepared statements. -/
structure Session (Cat Sql Ty : Type) where
  pc : Pc Cat Sql Ty
  explicit : Bool
  inTransaction : Bool
  snapshot : Option Cat
  pending : List (Cat → Cat)
  dirty : Bool
  statements : ℕ → Option (Prepared Sql Ty)

/-- What the connections share: the schema epoch and the committed catalog; `changes` counts the
schema changes that became visible. -/
structure Engine (Cat : Type) where
  epoch : ℕ
  catalog : Cat
  changes : ℕ

/-- A published result: the statement, the types recorded when it was prepared, and the snapshot
it executed in. -/
structure Published (Cat Sql Ty : Type) where
  sql : Sql
  recorded : List Ty
  snapshot : Cat

/-- What one step of a connection leaves: the engine, the connection, and the result it
publishes, if any. -/
abbrev Outcome (Cat Sql Ty : Type) :=
  Engine Cat × Session Cat Sql Ty × Option (Published Cat Sql Ty)

namespace Engine

/-- `atomic_fetch_add(&schema_epoch, 1)` -/
def advance (e : Engine Cat) : Engine Cat := { e with epoch := e.epoch + 1 }

/-- `duckdb_ml_schema_leave` -/
def schemaLeave (e : Engine Cat) (changing : Bool) : Engine Cat := if changing then e.advance else e

/-- The changes become visible, all at once. -/
def publish (e : Engine Cat) (changes : List (Cat → Cat)) : Engine Cat :=
  if changes.isEmpty then e
  else { e with catalog := changes.foldl (fun c f => f c) e.catalog, changes := e.changes + 1 }

@[simp] theorem advance_catalog (e : Engine Cat) : e.advance.catalog = e.catalog := rfl
@[simp] theorem advance_epoch (e : Engine Cat) : e.advance.epoch = e.epoch + 1 := rfl
@[simp] theorem advance_changes (e : Engine Cat) : e.advance.changes = e.changes := rfl
@[simp] theorem schemaLeave_true (e : Engine Cat) : e.schemaLeave true = e.advance := rfl
@[simp] theorem schemaLeave_false (e : Engine Cat) : e.schemaLeave false = e := rfl

@[simp] theorem publish_nil (e : Engine Cat) : e.publish [] = e := rfl

@[simp] theorem publish_epoch (e : Engine Cat) (fs : List (Cat → Cat)) :
    (e.publish fs).epoch = e.epoch := by
  unfold publish
  split <;> rfl

end Engine

namespace Session

/-- The snapshot of the open transaction, started by this access if it has none. -/
def access (x : Session Cat Sql Ty) (e : Engine Cat) : Cat := x.snapshot.getD e.catalog

/-- A catalog access: inside a transaction it starts the snapshot. -/
def accessed (x : Session Cat Sql Ty) (e : Engine Cat) : Session Cat Sql Ty :=
  if x.inTransaction then { x with snapshot := some (x.access e) } else x

def goto (x : Session Cat Sql Ty) (pc : Pc Cat Sql Ty) : Session Cat Sql Ty := { x with pc }

/-- `duckdb_ml_schema_enter`, for a statement that changes the schema -/
def schemaEnter (x : Session Cat Sql Ty) : Session Cat Sql Ty := { x with dirty := true }

/-- The engine opens a transaction; the stub clears `schema_dirty` after it. -/
def opened (x : Session Cat Sql Ty) (explicit : Bool) : Session Cat Sql Ty :=
  { x with explicit, inTransaction := true, snapshot := none, pending := [], dirty := false }

/-- The engine's transaction is over, and the statements prepared through it are closed. -/
def ended (x : Session Cat Sql Ty) : Session Cat Sql Ty :=
  { x with
    explicit := false, inTransaction := false, snapshot := none, pending := []
    statements := fun n => (x.statements n).filter fun p => !p.transaction }

/-- The engine runs a CREATE/ALTER/DROP in the open transaction: the change is the
transaction's own until it commits. -/
def changed (x : Session Cat Sql Ty) (e : Engine Cat) (f : Cat → Cat) : Session Cat Sql Ty :=
  { x with snapshot := some (f (x.access e)), pending := x.pending ++ [f] }

/-- A failed execution: an error inside an explicit transaction, a rollback otherwise. -/
def abort (x : Session Cat Sql Ty) : Session Cat Sql Ty :=
  x.goto (if x.explicit then .idle else .aborting)

def record (x : Session Cat Sql Ty) (n : ℕ) (p : Prepared Sql Ty) : Session Cat Sql Ty :=
  { x with statements := Function.update x.statements n (some p) }

/-- `stable_epoch`'s answer: the epoch at the start of the window, in a fresh snapshot and when the
epoch read at its end is the same. -/
def stableEpoch (x : Session Cat Sql Ty) (e : Engine Cat) (before : ℕ) : Option ℕ :=
  if !x.explicit && e.epoch == before then some before else none

end Session

section goto

variable (x : Session Cat Sql Ty) (pc : Pc Cat Sql Ty)

@[simp] theorem Session.goto_pc : (x.goto pc).pc = pc := rfl
@[simp] theorem Session.goto_explicit : (x.goto pc).explicit = x.explicit := rfl
@[simp] theorem Session.goto_snapshot : (x.goto pc).snapshot = x.snapshot := rfl
@[simp] theorem Session.goto_statements : (x.goto pc).statements = x.statements := rfl
@[simp] theorem Session.goto_access (e : Engine Cat) : (x.goto pc).access e = x.access e := rfl

end goto

variable [DecidableEq Ty] (L : Language Cat Sql Ty)

namespace Session

/-- `validate_parameter_schema` up to its first epoch read. -/
def validate (e : Engine Cat) (p : Prepared Sql Ty) (n : ℕ) : Pc Cat Sql Ty :=
  if p.parameterTypes.isEmpty then .ready n .noParameters
  else if p.validatedEpoch = some e.epoch then .ready n (.skipped e.epoch)
  else .stale n

/-- `recheck_after_execution` up to its epoch read. -/
def recheck (e : Engine Cat) (p : Prepared Sql Ty) (n : ℕ) (snapshot : Cat) :
    Validation → Pc Cat Sql Ty
  | .noParameters | .checked => .finishing n snapshot
  | .skipped epoch =>
    if e.epoch = epoch ∨ L.changesSchema p.sql then .finishing n snapshot
    else .comparing n snapshot

/-- The settlement's continuation, after `schema_leave`. -/
def resume (x : Session Cat Sql Ty) : After Cat → Session Cat Sql Ty × Option (Published Cat Sql Ty)
  | .idle => (x.goto .idle, none)
  | .abort => (x.goto .aborting, none)
  | .publish n snapshot =>
    (x.goto .idle, (x.statements n).map fun p => ⟨p.sql, p.parameterTypes, snapshot⟩)

/-- `ml_duckdb_execute_control` for COMMIT, up to the increment that follows it. -/
def commit (e : Engine Cat) (x : Session Cat Sql Ty) (ok : Bool) (after : After Cat) :
    Outcome Cat Sql Ty :=
  if ok then (e.publish x.pending, x.ended.goto (.settled (!x.pending.isEmpty) after), none)
  else (e, x.goto (.settled false .abort), none)

/-- `ml_duckdb_execute_control` for ROLLBACK, up to the increment that follows it. A rollback that
fails discards the connection. -/
def rollback (e : Engine Cat) (x : Session Cat Sql Ty) (ok : Bool) : Outcome Cat Sql Ty :=
  if ok then (e, x.ended.goto (.settled false .idle), none) else (e, x.goto .closed, none)

/-- The engine runs a CREATE/ALTER/DROP through `Duckdb.execute`. -/
def runChange (e : Engine Cat) (x : Session Cat Sql Ty) : Option (Cat → Cat) → Outcome Cat Sql Ty
  | none => (e, x.goto (.executed false), none)
  | some f =>
    if x.inTransaction then (e, (x.changed e f).goto (.executed false), none)
    else (e.publish [f], x.goto (.executed true), none)

/-- The engine executes a prepared statement, always inside a transaction. A failed one leaves
the snapshot as it is. -/
def runPrepared (e : Engine Cat) (x : Session Cat Sql Ty) (p : Prepared Sql Ty) (n : ℕ)
    (v : Validation) : Option (Cat → Cat) → Outcome Cat Sql Ty
  | none => (e, (x.accessed e).goto (.ran n v false (x.access e)), none)
  | some f =>
    if L.changesSchema p.sql then (e, (x.changed e f).goto (.ran n v true (x.access e)), none)
    else (e, (x.accessed e).goto (.ran n v true (x.access e)), none)

/-- **One step of a connection.** -/
def step (e : Engine Cat) (x : Session Cat Sql Ty) (a : Act Cat Sql) :
    Option (Outcome Cat Sql Ty) :=
  match x.pc, a with
  -- Transaction control of `with_transaction`.
  | .idle, .begin => if x.inTransaction then none else some (e, x.opened true, none)
  | .idle, .commit ok => if x.explicit then some (commit e x ok .idle) else none
  | .idle, .rollback ok => if x.explicit then some (rollback e x ok) else none
  -- Any other statement of `Duckdb.execute`: only its catalog access matters here.
  | .idle, .next => some (e, x.accessed e, none)
  -- `ml_duckdb_execute` of a CREATE/ALTER/DROP.
  | .idle, .alter => some (e.advance, x.schemaEnter.goto .entered, none)
  | .entered, .run change => some (runChange e x change)
  | .executed _, .next => some (e.advance, x.goto .idle, none)
  | .settled _ after, .next =>
    let (y, published) := Session.resume { x with dirty := false } after
    some (e.schemaLeave x.dirty, y, published)
  -- `Query.prepare_on`: the window of `stable_epoch` around `F.prepare`.
  | .idle, .prepare sql => some (e, x.goto (.preparing sql e.epoch), none)
  | .preparing sql before, .next =>
    match L.parameterTypes sql (x.access e) with
    | some types => some (e, (x.accessed e).goto (.prepared sql before types), none)
    | none => some (e, (x.accessed e).goto .idle, none)
  | .prepared sql before types, .register n =>
    if (x.statements n).isNone then
      some (e, (x.record n ⟨sql, types, x.stableEpoch e before, x.explicit⟩).goto .idle, none)
    else none
  -- `Query.execute_prepared`, in the internal transaction of `with_child_snapshot` unless the
  -- user's is open.
  | .idle, .execute n =>
    (x.statements n).bind fun p =>
      if p.transaction && !x.explicit then none
      else some (e, x.goto (if x.explicit then .validating n else .beginning n), none)
  | .beginning n, .begin => some (e, (x.opened false).goto (.validating n), none)
  | .validating n, .next =>
    (x.statements n).map fun p => (e, x.goto (validate e p n), none)
  | .stale n, .next => some (e, x.goto (.checking n e.epoch), none)
  | .checking n before, .next =>
    (x.statements n).map fun p =>
      if L.parameterTypes p.sql (x.access e) = some p.parameterTypes then
        (e, (x.accessed e).goto (.matched n before), none)
      else (e, (x.accessed e).abort, none)
  | .matched n before, .next =>
    (x.statements n).map fun p =>
      match x.stableEpoch e before with
      | some epoch =>
        (e, (x.record n { p with validatedEpoch := some epoch }).goto (.ready n .checked), none)
      | none => (e, x.goto (.ready n .checked), none)
  | .ready n v, .next =>
    (x.statements n).map fun p =>
      if L.changesSchema p.sql then (e.advance, x.schemaEnter.goto (.running n v), none)
      else (e, x.goto (.running n v), none)
  | .running n v, .run change => (x.statements n).map fun p => runPrepared L e x p n v change
  | .ran n v ok snapshot, .next =>
    (x.statements n).map fun p =>
      (e.schemaLeave (L.changesSchema p.sql),
        if ok then x.goto (.rechecking n v snapshot) else x.abort, none)
  | .rechecking n v snapshot, .next =>
    (x.statements n).map fun p => (e, x.goto (recheck L e p n snapshot v), none)
  | .comparing n snapshot, .next =>
    (x.statements n).map fun p =>
      if L.parameterTypes p.sql (x.access e) = some p.parameterTypes then
        (e, (x.accessed e).goto (.finishing n snapshot), none)
      else (e, (x.accessed e).abort, none)
  | .finishing n snapshot, .next =>
    if x.explicit then
      let (y, published) := x.resume (.publish n snapshot)
      some (e, y, published)
    else none
  | .finishing n snapshot, .commit ok =>
    if x.explicit then none else some (commit e x ok (.publish n snapshot))
  | .aborting, .rollback ok => some (rollback e x ok)
  -- Cancellation or an engine error before the step's own effect.
  | .preparing _ _, .fail | .prepared _ _ _, .fail => some (e, x.goto .idle, none)
  | .validating _, .fail | .checking _ _, .fail | .matched _ _, .fail | .ready _ _, .fail
  | .rechecking _ _ _, .fail | .comparing _ _, .fail | .finishing _ _, .fail =>
    some (e, x.abort, none)
  | .beginning _, .fail => some (e, x.goto .closed, none)
  | .settled visible (.publish _ _), .fail => some (e, x.goto (.settled visible .idle), none)
  | _, _ => none

end Session

/-- The connection is inside `execute_prepared`, between its BEGIN and its COMMIT. -/
def Pc.executing : Pc Cat Sql Ty → Bool
  | .validating _ | .stale _ | .checking _ _ | .matched _ _ | .ready _ _ | .running _ _
  | .ran _ _ _ _ | .rechecking _ _ _ | .comparing _ _ | .finishing _ _ => true
  | _ => false

/-- The connection has made a change visible and still owes the increment that follows it. -/
def Session.owes (x : Session Cat Sql Ty) : Bool :=
  match x.pc with
  | .executed visible | .settled visible _ => visible
  | _ => false

/-- **What one step can do**: one constructor for each arm of `Session.step`. -/
inductive Session.Move (e : Engine Cat) (x : Session Cat Sql Ty) :
    Act Cat Sql → Outcome Cat Sql Ty → Prop
  | begin : x.pc = .idle → x.inTransaction = false → Move e x .begin (e, x.opened true, none)
  | commit (ok) : x.pc = .idle → x.explicit = true → Move e x (.commit ok) (commit e x ok .idle)
  | rollback (ok) : x.pc = .idle → x.explicit = true → Move e x (.rollback ok) (rollback e x ok)
  | other : x.pc = .idle → Move e x .next (e, x.accessed e, none)
  | enter : x.pc = .idle → Move e x .alter (e.advance, x.schemaEnter.goto .entered, none)
  | run (change) : x.pc = .entered → Move e x (.run change) (runChange e x change)
  | leave (visible) : x.pc = .executed visible → Move e x .next (e.advance, x.goto .idle, none)
  | settle (visible after) : x.pc = .settled visible after →
      Move e x .next (e.schemaLeave x.dirty, Session.resume { x with dirty := false } after)
  | prepare (sql) : x.pc = .idle →
      Move e x (.prepare sql) (e, x.goto (.preparing sql e.epoch), none)
  | prepared (sql before types) : x.pc = .preparing sql before →
      L.parameterTypes sql (x.access e) = some types →
      Move e x .next (e, (x.accessed e).goto (.prepared sql before types), none)
  | unprepared (sql before) : x.pc = .preparing sql before →
      L.parameterTypes sql (x.access e) = none → Move e x .next (e, (x.accessed e).goto .idle, none)
  | register (sql before types n) : x.pc = .prepared sql before types → x.statements n = none →
      Move e x (.register n)
        (e, (x.record n ⟨sql, types, x.stableEpoch e before, x.explicit⟩).goto .idle, none)
  | execute (n p) : x.pc = .idle → x.statements n = some p →
      Move e x (.execute n)
        (e, x.goto (if x.explicit then .validating n else .beginning n), none)
  | beginning (n) : x.pc = .beginning n →
      Move e x .begin (e, (x.opened false).goto (.validating n), none)
  | validate (n p) : x.pc = .validating n → x.statements n = some p →
      Move e x .next (e, x.goto (validate e p n), none)
  | stale (n) : x.pc = .stale n → Move e x .next (e, x.goto (.checking n e.epoch), none)
  | check (n before p) : x.pc = .checking n before → x.statements n = some p →
      L.parameterTypes p.sql (x.access e) = some p.parameterTypes →
      Move e x .next (e, (x.accessed e).goto (.matched n before), none)
  | mismatch (n before p) : x.pc = .checking n before → x.statements n = some p →
      Move e x .next (e, (x.accessed e).abort, none)
  | revalidate (n before epoch p) : x.pc = .matched n before → x.statements n = some p →
      x.stableEpoch e before = some epoch →
      Move e x .next
        (e, (x.record n { p with validatedEpoch := some epoch }).goto (.ready n .checked), none)
  | unstable (n before) : x.pc = .matched n before →
      Move e x .next (e, x.goto (.ready n .checked), none)
  | change (n v p) : x.pc = .ready n v → x.statements n = some p → L.changesSchema p.sql = true →
      Move e x .next (e.advance, x.schemaEnter.goto (.running n v), none)
  | plain (n v p) : x.pc = .ready n v → x.statements n = some p → L.changesSchema p.sql = false →
      Move e x .next (e, x.goto (.running n v), none)
  | runPrepared (n v p change) : x.pc = .running n v → x.statements n = some p →
      Move e x (.run change) (runPrepared L e x p n v change)
  | ran (n v ok snapshot p) : x.pc = .ran n v ok snapshot → x.statements n = some p →
      Move e x .next (e.schemaLeave (L.changesSchema p.sql),
        if ok then x.goto (.rechecking n v snapshot) else x.abort, none)
  | recheck (n v snapshot p) : x.pc = .rechecking n v snapshot → x.statements n = some p →
      Move e x .next (e, x.goto (recheck L e p n snapshot v), none)
  | compare (n snapshot p) : x.pc = .comparing n snapshot → x.statements n = some p →
      L.parameterTypes p.sql (x.access e) = some p.parameterTypes →
      Move e x .next (e, (x.accessed e).goto (.finishing n snapshot), none)
  | differ (n snapshot p) : x.pc = .comparing n snapshot → x.statements n = some p →
      Move e x .next (e, (x.accessed e).abort, none)
  | publish (n snapshot) : x.pc = .finishing n snapshot → x.explicit = true →
      Move e x .next (e, x.resume (.publish n snapshot))
  | settlePrepared (n snapshot ok) : x.pc = .finishing n snapshot → x.explicit = false →
      Move e x (.commit ok) (commit e x ok (.publish n snapshot))
  | abort (ok) : x.pc = .aborting → Move e x (.rollback ok) (rollback e x ok)
  | fail (pc) :
      pc = .idle ∧ (x.pc.executing = true → x.explicit = true) ∨ pc = .closed ∨ pc = .aborting →
      x.owes = false → x.pc ≠ .aborting → x.pc ≠ .closed → (∀ b n, x.pc ≠ .settled b n) →
      Move e x .fail (e, x.goto pc, none)
  | withdraw (visible n snapshot) : x.pc = .settled visible (.publish n snapshot) →
      Move e x .fail (e, x.goto (.settled visible .idle), none)

/-- Every step is one of the moves. -/
theorem Session.move_of_step {e : Engine Cat} {x : Session Cat Sql Ty}
    {a : Act Cat Sql} {r : Outcome Cat Sql Ty}
    (h : Session.step L e x a = some r) : Move L e x a r := by
  unfold Session.step at h
  split at h
  all_goals try simp only [Option.some.injEq, Option.map_eq_some_iff, Option.bind_eq_some_iff,
    reduceCtorEq] at h
  all_goals (try obtain ⟨p, hp, h⟩ := h)
  all_goals (try split at h)
  all_goals grind [Move, Session.abort, Session.owes, Pc.executing, Option.isNone_iff_eq_none]

/-- The connections of the process, and the results they published, latest first. -/
structure World (κ Cat Sql Ty : Type) where
  engine : Engine Cat
  sessions : κ → Session Cat Sql Ty
  published : List (Published Cat Sql Ty)

/-- A connection without a statement and outside every transaction. -/
def Session.fresh : Session Cat Sql Ty where
  pc := .idle
  explicit := false
  inTransaction := false
  snapshot := none
  pending := []
  dirty := false
  statements := fun _ => none

variable [DecidableEq κ]

/-- A step of the connection `k`. -/
def World.step (w : World κ Cat Sql Ty) (k : κ) (a : Act Cat Sql) : Option (World κ Cat Sql Ty) :=
  (Session.step L w.engine (w.sessions k) a).map fun r =>
    { engine := r.1
      sessions := Function.update w.sessions k r.2.1
      published := r.2.2.toList ++ w.published }

/-- **The connections of one process**, started over any catalog and epoch. -/
def system (κ : Type) [DecidableEq κ] : System (World κ Cat Sql Ty) (κ × Act Cat Sql) where
  start w := (∀ k, w.sessions k = Session.fresh) ∧ w.published = []
  step w a := w.step L a.1 a.2

/-- A change is visible and its increment is still owed. -/
def Unannounced (w : World κ Cat Sql Ty) : Prop := ∃ k, (w.sessions k).owes = true

end DuckdbMl.SchemaEpoch
