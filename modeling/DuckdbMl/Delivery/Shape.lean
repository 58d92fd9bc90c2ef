import DuckdbMl.Delivery.System

/-!
# Stubs are balanced

A stub is balanced when on each of its paths the sections match: work is begun and ended once, a
cleanup is left as often as it is entered, an admitted call that may be interrupted is left before
anything else is begun, and each function of the engine is called where it may be. What is needed
for this is known at each point of a stub, whatever the controller does meanwhile.

## Main definitions

* `Shape`: what is known at a point of a stub
* `Code.Fits b s k`: `k` is balanced, from a point with the shape `s`; `b` tells whether it leaves a
  connection that is closing

## Main results

* `Stub.fits`: the stubs are balanced
-/

namespace DuckdbMl.Delivery

/-- What is known at a point of a stub: whether it has released the runtime, whether it is in
foreign work, the depth of its cleanups, the admitted call that it is in, and whether the connection
is closing. An admitted call may be interrupted or not. -/
structure Shape where
  blocking : Bool
  foreign : Bool
  depth : ℕ
  window : Option Bool
  closing : Bool

/-- The shape at the entry to a stub, and at its return. -/
def Shape.rest (closing : Bool) : Shape := ⟨false, false, 0, none, closing⟩

def Shape.permits (s : Shape) (c : Call) : Prop :=
  match c.window with
  | .user => s.window = some true
  | .scalar => s.window = some false
  | .work => s.foreign = true ∧ s.depth = 0 ∧ s.window = none
  | .cleanup => 0 < s.depth

def Shape.runtime (s : Shape) : Runtime → Prop
  | .held => s.blocking = false ∧ s.foreign = false
  | .released => s.blocking = true

/-- The code is balanced. -/
def Code.Fits (b : Bool) : Shape → Code → Prop
  | s, .done => s = Shape.rest b
  | s, .enterBlocking k => s.blocking = false ∧ Fits b { s with blocking := true } k
  | s, .leaveBlocking k => s.blocking = true ∧ s.window = none ∧
      Fits b { s with blocking := false } k
  | s, .workBegin k => s.blocking = true ∧ s.foreign = false ∧ s.depth = 0 ∧ s.window = none ∧
      s.closing = false ∧ Fits b { s with foreign := true } k
  | s, .workEnd k => s.blocking = true ∧ s.foreign = true ∧ s.depth = 0 ∧ s.window ≠ some true ∧
      Fits b { s with foreign := false, window := none } k
  | s, .callBegin interruptible k => s.blocking = true ∧ s.foreign = true ∧ s.depth = 0 ∧
      s.window ≠ some true ∧ s.closing = false ∧
        Fits b { s with window := some interruptible } (k .admitted) ∧
        Fits b { s with window := none } (k .cancelled)
  | s, .callEnd k => s.blocking = true ∧ s.foreign = true ∧ s.depth = 0 ∧
      s.window = some true ∧ Fits b { s with window := none } k
  | s, .cleanupBegin runtime k => s.runtime runtime ∧
      Fits b { s with depth := s.depth + 1, window := none } k
  | s, .cleanupEnd runtime k => s.runtime runtime ∧ 0 < s.depth ∧ s.window = none ∧
      Fits b { s with depth := s.depth - 1 } k
  | s, .closeBegin runtime k => b = true ∧ s.runtime runtime ∧ s.foreign = false ∧ s.depth = 0 ∧
      s.window = none ∧ Fits b { s with closing := true } k
  | s, .call c k => s.permits c ∧ ∀ a, Fits b s (k a)

variable {b : Bool} {s : Shape} {k l : Code} {f : Code → Code} {r : Runtime} {c : Call}

/-! ### Cleanups -/

/-- Inside of a cleanup that is entered from `s`. -/
def Shape.cleaned (s : Shape) : Shape := { s with depth := s.depth + 1, window := none }

/-- After a cleanup that was entered from `s`; it ends the call that `s` was in. -/
def Shape.left (s : Shape) : Shape := { s with window := none }

theorem Shape.permits_cleaned (hc : c.window = .cleanup) : s.cleaned.permits c := by
  rw [permits, hc]
  exact Nat.succ_pos _

theorem Shape.runtime_cleaned (h : s.runtime r) : s.cleaned.runtime r := by
  cases r
  · exact h
  · exact h

namespace Code

theorem fits_run (hc : s.permits c) (hk : Fits b s k) : Fits b s (run c k) := ⟨hc, fun _ => hk⟩

theorem fits_destroy {there : Bool} (hc : c.window = .cleanup) (hk : Fits b s.cleaned k) :
    Fits b s.cleaned (destroy there c k) := by
  cases there
  · exact hk
  · exact fits_run (Shape.permits_cleaned hc) hk

theorem fits_times {n : ℕ} (hc : c.window = .cleanup) (hk : Fits b s.cleaned k) :
    Fits b s.cleaned (times n c k) := by
  induction n with
  | zero => exact hk
  | succ n ih => exact fits_run (Shape.permits_cleaned hc) ih

theorem fits_cleanupEnd (hr : s.runtime r) (hl : Fits b s.left l) :
    Fits b s.cleaned (.cleanupEnd r l) :=
  ⟨Shape.runtime_cleaned hr, Nat.succ_pos _, rfl, hl⟩

/-- A cleanup of which each part keeps the shape. -/
theorem fits_cleaning (hr : s.runtime r) (hf : ∀ l, Fits b s.cleaned l → Fits b s.cleaned (f l))
    (hl : Fits b s.left l) : Fits b s (cleaning r f l) :=
  ⟨hr, hf _ (fits_cleanupEnd hr hl)⟩

end Code

open Code

theorem fits_clearWork {h : Held} (hr : s.runtime r) (hl : Fits b s.left l) :
    Fits b s (clearWork r h l) :=
  fits_cleaning hr (fun _ hl => fits_destroy rfl (fits_destroy rfl (fits_destroy rfl hl))) hl

theorem fits_clearResult {p : Prepared} (hr : s.runtime r) (hl : Fits b s.left l) :
    Fits b s (clearResult r p l) :=
  fits_cleaning hr (fun _ hl => fits_destroy rfl (fits_destroy rfl hl)) hl

theorem fits_clearPrepared {p : Prepared} (hr : s.runtime r) (hl : Fits b s.left l) :
    Fits b s (clearPrepared r p l) := by
  refine fits_cleaning hr (fun l hl => ?_) hl
  exact fits_clearResult (Shape.runtime_cleaned hr) (fits_destroy rfl (fits_destroy rfl hl))

theorem fits_connectionClear {h : Held} {connected : Bool} (hb : b = true) (hr : s.runtime r)
    (hs : s.foreign = false ∧ s.depth = 0 ∧ s.window = none)
    (hl : Fits b { s with closing := true } l) : Fits b s (connectionClear r h connected l) := by
  have hrun : ({ s with closing := true } : Shape).runtime r := by
    cases r
    · exact hr
    · exact hr
  refine ⟨hb, hr, hs.1, hs.2.1, hs.2.2, fits_cleaning hrun (fun l hl => ?_) ?_⟩
  · exact fits_clearWork (Shape.runtime_cleaned hrun) (fits_destroy rfl hl)
  · obtain ⟨blocking, foreign, depth, window, closing⟩ := s
    obtain ⟨-, -, hw⟩ := hs
    cases hw
    exact hl

theorem fits_check {a : Answer} (hr : s.runtime r) (hw : s.window = none) (hl : Fits b s l) :
    Fits b s (check r a l) := by
  have hleft : s.left = s := by
    obtain ⟨blocking, foreign, depth, window, closing⟩ := s
    cases hw
    rfl
  unfold check
  split
  · refine fits_cleaning hr (fun l hl => ?_) (hleft ▸ hl)
    exact fits_run (Shape.permits_cleaned rfl) hl
  · exact hl

theorem fits_destroyNative {g : Staging} (hr : s.runtime r) (hl : Fits b s.left l) :
    Fits b s (destroyNative r g l) := by
  refine fits_cleaning hr (fun l hl => ⟨Shape.permits_cleaned rfl, fun a => ?_⟩) hl
  -- the error data of the clear are destroyed one level deeper
  refine fits_check (Shape.runtime_cleaned hr) rfl ?_
  exact fits_run (Shape.permits_cleaned rfl) (fits_times rfl (fits_times rfl hl))

/-! ### Foreign work -/

/-- In foreign work of an open connection. -/
def Shape.work (window : Option Bool) : Shape := ⟨true, true, 0, window, false⟩

/-- The code is balanced from a point in foreign work that is in no call that may be interrupted. -/
def Code.Works (k : Code) : Prop := ∀ w, w ≠ some true → Fits false (Shape.work w) k

theorem Code.Works.outside (h : Works k) : Fits false (Shape.work none) k :=
  h none fun he => by cases he

theorem Code.Works.scalar (h : Works k) : Fits false (Shape.work (some false)) k :=
  h (some false) fun he => by cases he

/-- The runtime has been released, and nothing begun yet. -/
def Shape.blocked (closing : Bool) : Shape := ⟨true, false, 0, none, closing⟩

theorem fits_blocking {b' : Bool}
    (hf : ∀ l, Fits b' (Shape.blocked b') l → Fits b' (Shape.blocked b) (f l)) :
    Fits b' (Shape.rest b) (blocking f) :=
  ⟨rfl, hf _ ⟨rfl, rfl, rfl⟩⟩

theorem fits_workBegin (hk : Fits false (Shape.work none) k) :
    Fits false (Shape.blocked false) (.workBegin k) :=
  ⟨rfl, rfl, rfl, rfl, rfl, hk⟩

theorem works_workEnd (hl : Fits false (Shape.blocked false) l) : Works (.workEnd l) :=
  fun _ hw => ⟨rfl, rfl, rfl, hw, hl⟩

theorem fits_working (hf : ∀ l, Works l → Fits false (Shape.work none) (f l)) :
    Fits false (Shape.rest false) (working f) :=
  fits_blocking fun _ hl => fits_workBegin (hf _ (works_workEnd hl))

theorem works_cleaning
    (hf : ∀ l w, Fits false (Shape.work w).cleaned l → Fits false (Shape.work w).cleaned (f l))
    (hl : Works l) : Works (cleaning .released f l) :=
  fun w _ => fits_cleaning rfl (fun l => hf l w) hl.outside

theorem works_callBegin {interruptible : Bool} {k : Admission → Code}
    (hadmitted : Fits false (Shape.work (some interruptible)) (k .admitted))
    (hcancelled : Works (k .cancelled)) : Works (.callBegin interruptible k) :=
  fun _ hw => ⟨rfl, rfl, rfl, hw, rfl, hadmitted, hcancelled.outside⟩

theorem works_userCall {failed : Bool} {k : Option Answer → Code} (hc : c.window = .user)
    (hk : ∀ a, Works (k a)) : Works (userCall failed c k) := by
  cases failed
  · refine works_callBegin ⟨?_, fun a => ⟨rfl, rfl, rfl, rfl, (hk a).outside⟩⟩ (hk _)
    rw [Shape.permits, hc]
    rfl
  · exact hk _

theorem works_scalarCall {failed : Bool} {k : Option Answer → Code} (hc : c.window = .scalar)
    (hk : ∀ a, Works (k a)) : Works (scalarCall failed c k) := by
  cases failed
  · refine works_callBegin ⟨?_, fun a => (hk a).scalar⟩ (hk _)
    rw [Shape.permits, hc]
    rfl
  · exact hk _

theorem works_checkAnswer {a : Option Answer} (hl : Works l) : Works (checkAnswer a l) := by
  intro w hw
  cases a with
  | none => exact hl w hw
  | some a =>
    change Fits false (Shape.work w) (check .released a l)
    unfold check
    cases !a.ok && a.object
    · exact hl w hw
    · refine works_cleaning (fun l w hl => ?_) hl w hw
      exact fits_run (c := .destroyErrorData) (Shape.permits_cleaned rfl) hl

/-- The end of an execution, reached in its cleanup. -/
theorem fits_finishExecution {h : Held} {w : Option Bool} (hl : Works l) :
    Fits false (Shape.work w).cleaned (finishExecution h l) :=
  fits_clearWork rfl (fits_cleanupEnd (s := Shape.work w) rfl hl.outside)

theorem works_finish {h : Held} (hl : Works l) :
    Works (.cleanupBegin .released (finishExecution h l)) :=
  fun _ _ => ⟨rfl, fits_finishExecution hl⟩

theorem works_executeAdmitted {finish finishCleaning : Held → Code}
    (hfinish : ∀ h, Works (finish h))
    (hcleaning : ∀ h, Fits false (Shape.work (some true)).cleaned (finishCleaning h)) :
    Works (executeAdmitted finish finishCleaning) := by
  refine works_userCall (c := .extract) rfl fun a => ?_
  split
  · exact hfinish _
  · refine works_userCall (c := .prepare) rfl fun b => ?_
    split
    · exact hfinish _
    -- the admitted execution is left by the entry to its cleanup
    · exact works_callBegin ⟨rfl, fun _ => ⟨rfl, hcleaning _⟩⟩ (hfinish _)

theorem fits_execute (control : Bool) : Fits false (Shape.rest false) (execute control) := by
  refine fits_working fun l hl => ?_
  split
  · exact fits_run ⟨rfl, rfl, rfl⟩ (works_finish hl).outside
  · refine (works_executeAdmitted (fun _ => works_finish hl) fun _ => ?_).outside
    exact fits_finishExecution hl

theorem fits_executeControl (control : Control) :
    Fits false (Shape.rest false) (executeControl control) := by
  refine fits_working fun l hl => ?_
  have hadmitted : ∀ {c : Call}, c.window = .user → Fits false (Shape.work (some true))
      (run c (.cleanupBegin .released (finishExecution ⟨true, false, false⟩ l))) := fun hc =>
    fits_run (by rw [Shape.permits, hc]; rfl) ⟨rfl, fits_finishExecution hl⟩
  cases control with
  | begin => exact (works_callBegin (hadmitted rfl) (works_finish hl)).outside
  | commit => exact (works_callBegin (hadmitted rfl) (works_finish hl)).outside
  | rollback => exact fits_run ⟨rfl, rfl, rfl⟩ (works_finish hl).outside

theorem fits_publishLocalFileAdmitted :
    Fits false (Shape.rest false) publishLocalFileAdmitted := by
  refine fits_working fun l hl => (works_callBegin ?_ ?_).outside
  · exact fits_run (c := .link) rfl hl.scalar
  · exact hl

theorem fits_prepare : Fits false (Shape.rest false) prepare := by
  refine fits_working fun l hl => ?_
  have hfinish : ∀ extracted, Works
      (cleaning .released (fun l => destroy extracted .destroyExtracted l) l) := fun _ =>
    works_cleaning (fun _ _ hl => fits_destroy rfl hl) hl
  refine (works_userCall (c := .extract) rfl fun a => ?_).outside
  split
  · exact hfinish _
  · exact works_userCall (c := .prepare) rfl fun _ => hfinish _

theorem fits_fetch (chunk : Bool) : Fits false (Shape.rest false) (fetch chunk) :=
  fits_working fun _ hl => (works_cleaning (fun _ _ hl => fits_destroy rfl hl)
    (works_userCall (c := .fetch) rfl fun _ => hl)).outside

theorem fits_bindTemporal (temporal : Bool) :
    Fits false (Shape.rest false) (bindTemporal temporal) := by
  refine fits_working fun l hl => (works_callBegin (Works.scalar ?_) hl).outside
  change Works (if temporal then _ else _)
  split
  · refine works_scalarCall (c := .bindValue) rfl fun _ => ?_
    exact works_cleaning (fun _ _ hl => fits_run (Shape.permits_cleaned rfl) hl) hl
  · exact hl

/-! ### Appenders -/

theorem works_columnTypes {n : ℕ} (hl : Works l) : Works (columnTypes n l) := by
  induction n with
  | zero => exact hl
  | succ n ih =>
    refine works_scalarCall (c := .columnType) rfl fun a => ?_
    cases a with
    | none => exact hl
    | some _ => exact works_cleaning (fun _ _ hl => fits_run (Shape.permits_cleaned rfl) hl) ih

theorem works_appenderTypes {m : Metadata} {isFailed : Bool} (hl : Works l) :
    Works (appenderTypes m isFailed l) := by
  unfold appenderTypes
  split
  · exact hl
  · refine works_callBegin (Works.scalar ?_) hl
    change Works (if m.agrees && m.allocated then _ else _)
    split
    · exact works_columnTypes hl
    · exact hl

theorem works_appenderSchema {m : Metadata} {isFailed : Bool} (hl : Works l) :
    Works (appenderSchema m isFailed l) := by
  unfold appenderSchema
  split
  · exact hl
  · refine works_callBegin (Works.scalar ?_) hl
    change Works (if m.catalog then _ else _)
    split
    · exact works_scalarCall (c := .createAppender) rfl fun a =>
        works_checkAnswer (works_appenderTypes hl)
    · exact works_appenderTypes hl

theorem works_extraChunk {isFailed : Bool} {k : Bool → Code} (hk : ∀ b, Works (k b)) :
    Works (extraChunk isFailed k) := by
  refine works_userCall (c := .fetch) rfl fun a => ?_
  split
  · exact works_cleaning (fun _ _ hl => fits_run (Shape.permits_cleaned rfl) hl) (hk _)
  · exact hk _

theorem fits_createAppender (m : Metadata) : Fits false (Shape.rest false) (createAppender m) := by
  refine fits_working fun l hl => Works.outside ?_
  refine works_userCall (c := .extract) rfl fun a => ?_
  refine works_userCall (c := .prepare) rfl fun b => ?_
  refine works_scalarCall (c := .bind) rfl fun _ => ?_
  refine works_scalarCall (c := .bind) rfl fun _ => ?_
  refine works_userCall (c := .execute) rfl fun _ => ?_
  refine works_userCall (c := .fetch) rfl fun f => ?_
  refine works_extraChunk fun _ => works_appenderSchema (works_cleaning (fun l _ hl => ?_) hl)
  refine fits_destroy rfl (fits_run (Shape.permits_cleaned rfl) ?_)
  exact fits_destroy rfl (fits_destroy rfl hl)

theorem works_appendChunks {n : ℕ} {isFailed : Bool} (hl : Works l) :
    Works (appendChunks n isFailed l) := by
  induction n generalizing isFailed with
  | zero => exact hl
  | succ n ih =>
    exact works_userCall (c := .appendChunk) rfl fun a => works_checkAnswer ih

theorem fits_appendStaged (chunks capacity : ℕ) (isFailed : Bool) :
    Fits false (Shape.rest false) (appendStaged chunks capacity isFailed) := by
  refine fits_working fun l hl => (works_appendChunks ?_).outside
  split
  · exact works_cleaning (fun _ _ hl => fits_times rfl hl) hl
  · exact hl

theorem fits_flushAppender (isFailed : Bool) :
    Fits false (Shape.rest false) (flushAppender isFailed) :=
  fits_working fun _ hl =>
    (works_userCall (c := .flushAppender) rfl fun _ => works_checkAnswer hl).outside

theorem works_addColumns {n : ℕ} {isFailed : Bool} (hl : Works l) :
    Works (addColumns n isFailed l) := by
  induction n generalizing isFailed with
  | zero => exact hl
  | succ n ih =>
    exact works_scalarCall (c := .addColumn) rfl fun a => works_checkAnswer ih

theorem fits_selectColumns (n : ℕ) (isFailed staged : Bool) (g : Staging) :
    Fits false (Shape.rest false) (selectColumns n isFailed staged g) := by
  refine fits_blocking fun l hl => ?_
  have hselect : Fits false (Shape.blocked false)
      (.workBegin (addColumns n isFailed (.workEnd l))) :=
    fits_workBegin (works_addColumns (works_workEnd hl)).outside
  unfold restage
  split
  · exact fits_cleaning rfl (fun l hl => fits_times rfl (fits_times rfl hl)) hselect
  · exact hselect

theorem fits_closeNative {appender flush : Bool} {g : Staging} (hflush : flush = true → b = false)
    (hl : Fits b (Shape.blocked b) l) :
    Fits b (Shape.blocked b) (closeNative appender flush .released g l) := by
  unfold closeNative
  split
  · split
    case isTrue hf =>
      -- only the close of an open connection flushes
      cases hflush hf
      refine fits_workBegin (works_userCall (c := .closeAppender) rfl fun _ => ?_).outside
      exact works_checkAnswer (works_workEnd (fits_destroyNative rfl hl))
    case isFalse => exact fits_destroyNative rfl hl
  · exact hl

theorem fits_closeNative_held {appender : Bool} {g : Staging} {b' : Bool}
    (hl : Fits b' (Shape.rest b) l) :
    Fits b' (Shape.rest b) (closeNative appender false .held g l) := by
  unfold closeNative
  split
  · exact fits_destroyNative ⟨rfl, rfl⟩ hl
  · exact hl

/-! ### The stubs -/

theorem fits_connectionDelete {last connected : Bool} {h : Held} :
    Fits (b || last) (Shape.rest b) (connectionDelete last h connected .done) := by
  unfold connectionDelete
  cases last
  · rw [Bool.or_false]
    exact rfl
  · rw [Bool.or_true]
    exact fits_connectionClear rfl ⟨rfl, rfl⟩ ⟨rfl, rfl, rfl⟩ rfl

/-- **The stubs are balanced**: on an open connection all of them, and on one that is closing the
quiet ones. -/
theorem Stub.fits (stub : Stub) (hquiet : b = true → stub.quiet = true) :
    Fits (b || stub.closes) (Shape.rest b) stub.code := by
  have hopen : stub.quiet = false → b = false := fun hq => by
    cases b
    · rfl
    · exact absurd (hquiet rfl) (by rw [hq]; exact Bool.false_ne_true)
  -- only the stubs that release something run on a connection that is closing
  cases stub with
  | connect =>
    cases hopen rfl
    exact fits_working fun l hl => fits_run ⟨rfl, rfl, rfl⟩ hl.outside
  | execute control =>
    cases hopen rfl
    exact fits_execute control
  | executeControl control =>
    cases hopen rfl
    exact fits_executeControl control
  | admitLocalFile =>
    cases hopen rfl
    exact fits_working fun l hl => (works_callBegin (k := fun _ => l) hl.scalar hl).outside
  | publishLocalFileAdmitted =>
    cases hopen rfl
    exact fits_publishLocalFileAdmitted
  | clearWork h =>
    change Fits (b || false) _ _
    rw [Bool.or_false]
    exact fits_clearWork ⟨rfl, rfl⟩ rfl
  | prepare =>
    cases hopen rfl
    exact fits_prepare
  | executePrepared =>
    cases hopen rfl
    exact fits_working fun l hl => (works_userCall (c := .execute) rfl fun _ => hl).outside
  | fetch chunk =>
    cases hopen rfl
    exact fits_fetch chunk
  | bindScalar =>
    cases hopen rfl
    exact fits_working fun l hl => (works_scalarCall (c := .bind) rfl fun _ => hl).outside
  | bindTemporal temporal =>
    cases hopen rfl
    exact fits_bindTemporal temporal
  | reset =>
    cases hopen rfl
    exact fits_working fun l hl => (works_scalarCall (c := .clearBindings) rfl fun _ => hl).outside
  | closeResult p =>
    change Fits (b || false) _ _
    rw [Bool.or_false]
    exact fits_blocking fun l hl => fits_clearResult rfl hl
  | finishResultClose p =>
    change Fits (b || false) _ _
    rw [Bool.or_false]
    exact fits_clearResult ⟨rfl, rfl⟩ rfl
  | closePrepared p =>
    change Fits (b || false) _ _
    rw [Bool.or_false]
    exact fits_blocking fun l hl => fits_clearPrepared rfl hl
  | finishPreparedClose p last h connected =>
    exact fits_clearPrepared ⟨rfl, rfl⟩ fits_connectionDelete
  | createAppender m =>
    cases hopen rfl
    exact fits_createAppender m
  | appendStaged chunks capacity isFailed =>
    cases hopen rfl
    exact fits_appendStaged chunks capacity isFailed
  | flushAppender isFailed =>
    cases hopen rfl
    exact fits_flushAppender isFailed
  | selectColumns n isFailed staged g =>
    cases hopen rfl
    exact fits_selectColumns n isFailed staged g
  -- the flush of an appender is work, so that a quiet close has none
  | closeAppender appender flush g =>
    change Fits (b || false) _ _
    rw [Bool.or_false]
    refine fits_blocking fun l hl => fits_closeNative (fun hf => hopen ?_) hl
    change (!flush) = false
    rw [hf]
    rfl
  | finishAppenderClose appender g last h connected =>
    exact fits_closeNative_held fits_connectionDelete
  | closeConnection h connected =>
    change Fits (b || true) _ _
    rw [Bool.or_true]
    exact fits_blocking fun l hl => fits_connectionClear rfl rfl ⟨rfl, rfl, rfl⟩ hl
  | finishConnectionClose last h connected => exact fits_connectionDelete

end DuckdbMl.Delivery
