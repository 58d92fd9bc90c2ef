import DuckdbMl.Failure.Basic
import DuckdbMl.Transition.Interleaving
import Mathlib.Data.List.Sort

/-!
# Migrations

`Migration.apply` reads the recorded history, takes the steps after it, and runs each with its
bookkeeping row in one transaction. Any number of such runs interleave on one database: a
statement that the engine executes on its own, or a COMMIT, is one step of the system, and what
the engine answers is a label.

## Main definitions

* `Step`, `Row`, `pending`: steps, the recorded history, and what is left to apply
* `Db`: the committed transactions of a database
* `Run`, `Run.step`: a run of `apply` and its next step
* `migrations`: the system of all runs
-/

namespace DuckdbMl.Migration

open Transition

/-- A step's work: statements, or code that runs in the step's transaction. -/
inductive Kind
  | statements (list : List String) (canonical : String)
  | run
  deriving DecidableEq

structure Step where
  version : ℤ
  name : String
  checksum : String
  kind : Kind
  deriving DecidableEq

/-- A row of the bookkeeping table. -/
structure Row where
  version : ℤ
  name : String
  checksum : String
  deriving DecidableEq

def describe (version : ℤ) (name checksum : String) : String :=
  toString version ++ " " ++ name ++ " (" ++ checksum ++ ")"

def mismatch {α : Type} (version : ℤ) (name expected actual : String) : Except Failure α :=
  .error ⟨.migration version name, .migrationMismatch version expected actual⟩

/-- The steps not yet applied, or the first difference between the history and the list. -/
def pending : List Step → List Row → Except Failure (List Step)
  | steps, [] => .ok steps
  | [], r :: _ => mismatch r.version r.name "none" (describe r.version r.name r.checksum)
  | s :: steps, r :: rest =>
    if s.version < r.version then
      mismatch s.version s.name (describe s.version s.name s.checksum) "none"
    else if s.version > r.version then
      mismatch r.version r.name "none" (describe r.version r.name r.checksum)
    else if s.name = r.name ∧ s.checksum = r.checksum then pending steps rest
    else mismatch r.version r.name (describe s.version s.name s.checksum)
      (describe r.version r.name r.checksum)

/-- `check_versions`: versions are strictly increasing. -/
def checkVersions : List Step → Bool
  | a :: b :: rest => decide (a.version < b.version) && checkVersions (b :: rest)
  | _ => true

/-! ### The database -/

/-- A write of a step's body: a statement, or what its code does. -/
inductive Write (W : Type)
  | statement (text : String)
  | work (w : W)
  deriving DecidableEq

/-- A committed transaction: its bookkeeping rows and its other writes. -/
structure Transaction (W : Type) where
  rows : List Row
  writes : List (Write W)

/-- The database: whether the bookkeeping table exists, and the transactions in the order of their
commits. -/
structure Db (W : Type) where
  created : Bool
  log : List (Transaction W)

variable {W : Type}

def Db.rows (db : Db W) : List Row := db.log.flatMap Transaction.rows

/-- `read_history`: the rows in the order of their versions. -/
def Db.history (db : Db W) : List Row := db.rows.insertionSort fun a b => a.version ≤ b.version

/-- A COMMIT, which the primary key refuses when a version is already there. -/
def Db.commit (db : Db W) (tx : Transaction W) : Option (Db W) :=
  if ∃ r ∈ tx.rows, ∃ r' ∈ db.rows, r'.version = r.version then none
  else some { db with log := db.log ++ [tx] }

/-! ### Runs of `apply` -/

inductive Position (W : Type)
  | idle
  | historyExists
  | createHistory
  | readHistory
  | applyAll (applied : List ℤ) (todo : List Step)
  | perform (applied : List ℤ) (s : Step) (rest : List Step) (left : List String)
      (writes : List (Write W))
  | record (applied : List ℤ) (s : Step) (rest : List Step) (writes : List (Write W))
  | commit (applied : List ℤ) (s : Step) (rest : List Step) (tx : Transaction W)
  | verify (versions : List ℤ)
  | returned (result : Except Failure (List ℤ))
  | raised

/-- A run of `apply`: its list, the versions of the steps it has committed, and where it is. -/
structure Run (W : Type) where
  steps : List Step
  committed : List ℤ
  position : Position W

/-- What a run does next: `after` marks a failure reported although the call took effect. -/
inductive Act (W : Type)
  | apply (steps : List Step)
  | ok
  | work (w : W)
  | error (e : Failure) (after : Bool)
  | raise (after : Bool)

def Step.row (s : Step) : Row := ⟨s.version, s.name, s.checksum⟩

def Kind.list : Kind → List String
  | .statements list _ => list
  | .run => []

namespace Run

def init : Run W := ⟨[], [], .idle⟩

def finished (p : Run W) : Bool :=
  match p.position with
  | .idle | .returned _ | .raised => true
  | _ => false

/-- What the call under way does to the database when it takes effect. -/
def effect (p : Run W) (db : Db W) : Option (Db W) :=
  match p.position with
  | .createHistory => some { db with created := true }
  | .commit _ _ _ tx => db.commit tx
  | _ => some db

/-- The run, once that call has taken effect. -/
def landed (p : Run W) : Run W :=
  match p.position with
  | .commit _ s _ _ => { p with committed := p.committed ++ [s.version] }
  | _ => p

/-- Where an `Ok` leads. -/
def next (p : Run W) (db : Db W) : Option (Position W) :=
  match p.position with
  | .historyExists => some (if db.created then .readHistory else .createHistory)
  | .createHistory => some .readHistory
  | .readHistory =>
    if db.created then
      some (match pending p.steps db.history with
        | .error e => .returned (.error e)
        | .ok todo => .applyAll [] todo)
    else none
  | .applyAll applied [] => some (.verify applied.reverse)
  | .applyAll applied (s :: rest) => some (.perform applied s rest s.kind.list [])
  | .perform applied s rest (statement :: left) writes =>
    some (.perform applied s rest left (writes ++ [.statement statement]))
  | .perform applied s rest [] writes => some (.record applied s rest writes)
  | .record applied s rest writes => some (.commit applied s rest ⟨[s.row], writes⟩)
  | .commit applied s rest _ => some (.applyAll (s.version :: applied) rest)
  | .verify versions => some (.returned (.ok versions))
  | .idle | .returned _ | .raised => none

/-- `within_step`: a failure of a step carries the step's context. -/
def failure (p : Run W) (e : Failure) : Failure :=
  match p.position with
  | .applyAll _ (s :: _) | .perform _ s _ _ _ | .record _ s _ _ | .commit _ s _ _ =>
    ⟨.migration s.version s.name, e.cause⟩
  | _ => e

/-- The run ends where its call fails, before the call took effect or after it. -/
def fail (p : Run W) (db : Db W) (after : Bool) (position : Position W) :
    Option (Db W × Run W) :=
  if p.finished then none
  else if after then
    (p.effect db).map fun db => (db, { p.landed with position := position })
  else some (db, { p with position := position })

def step (p : Run W) (db : Db W) : Act W → Option (Db W × Run W)
  | .apply steps =>
    if p.finished then
      some (db, ⟨steps, [], if checkVersions steps then .historyExists else .raised⟩)
    else none
  | .ok => do
    let position ← p.next db
    let db ← p.effect db
    return (db, { p.landed with position := position })
  | .work w =>
    match p.position with
    | .perform applied s rest left writes =>
      if s.kind = .run then
        some (db, { p with position := .perform applied s rest left (writes ++ [.work w]) })
      else none
    | _ => none
  | .error e after => p.fail db after (.returned (.error (p.failure e)))
  | .raise after => p.fail db after .raised

end Run

/-- All runs, on a database without migrations. -/
def migrations (ι W : Type) : Interleaving (Db W) ι (Run W) (Act W) where
  start db := db.log = []
  idle := .init
  step _ db p act := p.step db act

end DuckdbMl.Migration
