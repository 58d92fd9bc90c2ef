import DuckdbMl.Appender.Pool
import DuckdbMl.Failure.Scope

/-!
# The appender

An appender belongs to a transaction. Its first failure sticks to it, and every failure poisons the
transaction, which then cannot commit.

## Main definitions

* `App`, `St`: the appender, and with it its transaction
* `Ambient`: what others decide during an operation
* `operation`: an admitted operation, and what becomes of its failures
* `appendStaged`, `appendSlices`, `flushAppender`, `closeAppender`, `forceClose`

## Main results

* `operation_cases`: an operation is refused, or it fails and poisons, or it succeeds
-/

namespace DuckdbMl.Appender

open Effects
open DuckdbMl.Decode (Floats)

/-- An appender, with the columns it was opened on, its first failure, and whether its parent still
has it. -/
structure App (F : Floats) where
  native : Owner F
  types : List ℕ
  nullable : List Bool
  failure : Option Cause
  childOpen : Bool

/-- An appender and its transaction. -/
structure St (F : Floats) where
  app : App F
  active : Bool
  poisoned : Option Cause

/-- What others decide during an operation: what its admission meets, whether the request is
cancelled at the checkpoints, the allocations, the answers of the engine, and what the native calls
raise. -/
structure Ambient (E : Type) where
  available : Bool
  facade : Except Cause Unit
  free : Bool
  entered : Except Cause Unit
  before : ℕ → Except Cause Unit
  grant : ℕ → Grant
  answer : ℕ → ℕ → Answer
  interrupt : ℕ → Option (Exn E)
  after : Except Cause Unit
  joined : Option (Exn E)
  cleared : Except (Exn E) (Option String)

abbrev Op (F : Floats) (E α : Type) := Comp (St F) (Exn E) α

abbrev Result := Except Cause Unit

variable {F : Floats} {E : Type}

section Definitions

variable (G : Engine) (amb : Ambient E)

/-- The first failure sticks to the appender; every failure poisons the transaction. -/
def poison (e : Cause) : Op F E Result := fun s =>
  let first := s.app.failure.getD e
  (.ok (.error first),
    { s with app := { s.app with failure := some first }, poisoned := s.poisoned.or (some e) })

def orPoison : Result → Op F E Result
  | .ok () => Comp.ret (.ok ())
  | .error e => poison e

def interrupted : Cause :=
  .native "Appender operation or scope interrupted; transaction must roll back"

def unclosed : Cause := .native "Unclosed appender discarded at scope exit"

/-- The checks of an admission, the first failure first. -/
def admitOperation (s : St F) : Result :=
  if !(s.app.childOpen && s.active) then .error .closed
  else if !amb.available then .error .closed
  else match amb.facade with
    | .error c => .error c
    | .ok () => if amb.free then .ok () else .error .busy

/-- An admission, with the first checkpoint. -/
def admission (s : St F) : Result :=
  match admitOperation amb s with
  | .error c => .error c
  | .ok () => amb.entered

/-- A failure of the work, or a cancellation after it, poisons. -/
def afterwards : Except (Exn E) Result × St F → Except (Exn E) Result × St F
  | (.ok (.ok ()), t) => orPoison amb.after t
  | (.ok (.error e), t) => poison e t
  | (.error e, t) => (.error e, (poison (E := E) interrupted t).2)

def operation (work : Op F E Result) : Op F E Result := fun s =>
  match admission amb s with
  | .error c => (.ok (.error c), s)
  | .ok () =>
    match s.app.failure with
    | some e => (.ok (.error e), s)
    | none => afterwards amb (work s)

def St.onNative (f : Owner F → Owner F) (s : St F) : St F :=
  { s with app := { s.app with native := f s.app.native } }

/-- A native call. -/
def call (k : ℕ) (f : Owner F → Owner F) : Op F E Unit := fun s =>
  match amb.interrupt k with
  | none => (.ok (), s.onNative f)
  | some e => (.error e, s.onNative f)

def Owner.result (p : Owner F) : Result :=
  match p.status with
  | none => .ok ()
  | some c => .error c

def status : Op F E Result := fun s => (.ok s.app.native.result, s)

/-- `work` after a checkpoint. -/
def checked (k : ℕ) (work : Op F E Result) : Op F E Result :=
  match amb.before k with
  | .error c => Comp.ret (.error c)
  | .ok () => work

/-- The staging is cleared on every exit. -/
def clearing (work : Op F E Result) : Op F E Result := fun s =>
  let (r, t) := work s
  (r, t.onNative Owner.clearInput)

def appendStaged (null : Option (ℕ × ℕ)) : Op F E Result :=
  clearing <| operation amb <|
    match null with
    | some (column, row) => Comp.ret (.error (.null column row))
    | none => checked amb 0 do
      call amb 0 (Owner.appendStaged G · (amb.answer 0))
      status

/-- The slices of the rows from `pos` on, each at most one vector. -/
def Engine.slices (rows pos : ℕ) : List (ℕ × ℕ) :=
  if rows ≤ pos then []
  else
    let n := min G.size (rows - pos)
    (pos, n) :: slices rows (pos + n)
termination_by rows - pos
decreasing_by have := G.size_pos; omega

/-- One slice: it is staged in one chunk, and sent. -/
def appendSlice (stage : ℕ → ℕ → Owner F → Owner F) (k pos n : ℕ) : Op F E Result :=
  checked amb k do
    Comp.modify (St.onNative fun p => stage pos n (p.stageBegin G (amb.grant k) n))
    call amb k (Owner.appendStaged G · (amb.answer k))
    status

/-- The slices in order, until one fails. -/
def sliceAll (stage : ℕ → ℕ → Owner F → Owner F) : ℕ → List (ℕ × ℕ) → Op F E Result
  | _, [] => Comp.ret (.ok ())
  | k, (pos, n) :: slices => do
    match ← appendSlice G amb stage k pos n with
    | .error c => return .error c
    | .ok () => sliceAll stage (k + 1) slices

def appendSlices (rows : ℕ) (stage : ℕ → ℕ → Owner F → Owner F) : Op F E Result :=
  clearing (operation amb (sliceAll G amb stage 0 (G.slices rows 0)))

/-- A user call of the engine. -/
def Owner.userCall (p : Owner F) : Answer → Owner F
  | .accepted => p
  | .suppressed => if p.status.isSome then p else { p with status := some .cancelled }
  | .failed message => p.error message

def flushNative : Op F E Result := do
  call amb 0 (·.userCall (amb.answer 0 0))
  status

def flushAppender : Op F E Result := operation amb (flushNative amb)

/-- The active columns become `names`, which are at `indices`. -/
def selectColumns (names : List String) (indices : List ℕ) (refused : Option Cause) : Op F E Result :=
  operation amb do
    call amb 0 (·.selectColumns names indices refused)
    match ← status with
    | .error c => return .error c
    | .ok () =>
      Comp.modify fun s =>
        { s with app := { s.app with
          types := s.app.native.types
          nullable := s.app.native.nullable } }
      return .ok ()

/-- The native appender goes, even when its cleanup raises. -/
def destroy : Op F E Result := fun s =>
  match amb.joined with
  | some e => (.error e, s)
  | none =>
    if s.app.native.closed then (.ok (.ok ()), s)
    else
      let t := s.onNative Owner.close
      match amb.cleared with
      | .error e => (.error e, t)
      | .ok (some message) => (.ok (.error (s.app.native.status.getD (.native message))), t)
      | .ok none => (.ok s.app.native.result, t)

def unregister (s : St F) : St F := { s with app := { s.app with childOpen := false } }

/-- The last flush of an appender that has not failed. -/
def lastFlush : Op F E Result := fun s =>
  match s.app.failure with
  | some e => (.ok (.error e), s)
  | none => (flushNative amb >>= fun r => Comp.ret (r.bind fun _ => amb.before 1)) s

/-- `close_appender`. -/
def closeAppender : Op F E Result := fun s =>
  if !s.app.childOpen then (.ok (.ok ()), s)
  else
    match admitOperation amb s with
    | .error c => (.ok (.error c), s)
    | .ok () =>
      let s := (orPoison (E := E) (amb.before 0) s).2
      let (flushed, s) := lastFlush amb s
      let (destroyed, s) := destroy amb s
      let (r, s) := match flushed, destroyed with
        | .ok flushed, .ok destroyed =>
          match s.app.failure with
          | some e => (.ok (.error e), s)
          | none => orPoison (do
            flushed
            destroyed
            amb.after) s
        | .error e, .ok _ => (.error e, (poison (E := E) interrupted s).2)
        | .ok _, .error e => (.error e, (poison (E := E) interrupted s).2)
        | .error e, .error e' => (.error (.both e e'), (poison (E := E) interrupted s).2)
      (r, unregister s)

/-- The cleanup that the parent owns. An appender that is left open poisons. -/
def forceClose : Op F E Unit := fun s =>
  if !s.app.childOpen then (.ok (), s)
  else
    let s := (poison (E := E) unclosed s).2
    let (r, s) := destroy amb s
    (r.map fun _ => (), unregister s)

end Definitions

/-! ### What lasts -/

/-- The appender without its staging. -/
def St.lasting (s : St F) : St F := s.onNative Owner.lasting

section Lasting

variable {G : Engine} {amb : Ambient E} {s t : St F}

theorem St.lasting_onNative {p : Owner F} (hs : s.lasting = t.lasting) {q : Owner F}
    (h : p.lasting = q.lasting) :
    (s.onNative fun _ => p).lasting = (t.onNative fun _ => q).lasting := by
  have := congrArg (fun u : St F => u.onNative fun _ => q.lasting) hs
  simp only [St.lasting, St.onNative] at this ⊢
  rw [h]
  exact this

theorem poison_fst (h : s.lasting = t.lasting) (e : Cause) :
    (poison (E := E) e s).1 = (poison (E := E) e t).1 := by
  have := congrArg (fun u => (poison (F := F) (E := E) e u).1) h
  exact this

theorem poison_snd (h : s.lasting = t.lasting) (e : Cause) :
    (poison (E := E) e s).2.lasting = (poison (E := E) e t).2.lasting := by
  have := congrArg (fun u => (poison (F := F) (E := E) e u).2) h
  exact this

/-- **An operation** is refused by its admission, or by the first failure of the appender, or its
work runs: then it fails and poisons, or it succeeds. -/
theorem operation_cases (amb : Ambient E) (work : Op F E Result) (s : St F) :
    (∃ c, admission amb s = .error c ∧ operation amb work s = (.ok (.error c), s)) ∨
    (admission amb s = .ok () ∧ ∃ e, s.app.failure = some e ∧
      operation amb work s = (.ok (.error e), s)) ∨
    (admission amb s = .ok () ∧ s.app.failure = none ∧
      ((∃ t, work s = (.ok (.ok ()), t) ∧ operation amb work s = orPoison amb.after t) ∨
       (∃ e t, work s = (.ok (.error e), t) ∧ operation amb work s = poison e t) ∨
       (∃ e t, work s = (.error e, t) ∧
        operation amb work s = (.error e, (poison (E := E) interrupted t).2)))) := by
  unfold operation
  cases ha : admission amb s with
  | error c => exact .inl ⟨c, rfl, rfl⟩
  | ok u =>
    cases hf : s.app.failure with
    | some e => exact .inr (.inl ⟨rfl, e, rfl, rfl⟩)
    | none =>
      refine .inr (.inr ⟨rfl, rfl, ?_⟩)
      match hw : work s with
      | (.ok (.ok ()), t) => exact .inl ⟨t, rfl, rfl⟩
      | (.ok (.error e), t) => exact .inr (.inl ⟨e, t, rfl, rfl⟩)
      | (.error e, t) => exact .inr (.inr ⟨e, t, rfl, rfl⟩)

end Lasting

end DuckdbMl.Appender
