import DuckdbMl.Appender.Open

/-!
# Failures of an appender

An operation that fails poisons the transaction, and from then on the appender answers with its first
failure. A batch that is rejected before anything is appended leaves no trace. An appender is used in
a scope, which closes it on every exit.

## Main definitions

* `Grows`, `Stable`: what no operation undoes
* `Stuck`: a failure that has poisoned
* `withAppender`: the scope of an appender

## Main results

* `stuck_operation`: an operation that is admitted and fails poisons
* `appendRows_answer`, `appendBulk_answer`: the answers after a failure and after the scope's end
* `lasting_rejected`: a rejected batch changes nothing that lasts
* `withAppender_spec`: the scope closes the appender, and poisons unless it succeeds
-/

namespace DuckdbMl.Appender

open Effects
open DuckdbMl.Decode (Floats)

variable {F : Floats} {E α β : Type}

/-! ### What no operation undoes -/

/-- A poison and a first failure stay, a new failure poisons, and nothing is opened again. -/
structure Grows (s t : St F) : Prop where
  active : t.active = s.active
  closed : s.app.childOpen = false → t.app.childOpen = false
  poisoned : s.poisoned.isSome → t.poisoned.isSome
  failure : ∀ e, s.app.failure = some e → t.app.failure = some e
  fresh : s.app.failure = none → t.app.failure.isSome → t.poisoned.isSome

/-- An operation that undoes nothing. -/
def Stable (c : Op F E α) : Prop := ∀ s, Grows s (c s).2

section Stable

variable {G : Engine} {amb : Ambient E} {s t u : St F}

theorem Grows.refl (s : St F) : Grows s s := ⟨rfl, id, id, fun _ => id, fun h h' => by simp [h] at h'⟩

theorem Grows.trans (h : Grows s t) (h' : Grows t u) : Grows s u where
  active := h'.active.trans h.active
  closed hs := h'.closed (h.closed hs)
  poisoned hs := h'.poisoned (h.poisoned hs)
  failure e he := h'.failure e (h.failure e he)
  fresh hs hu := by
    cases ht : t.app.failure with
    | none => exact h'.fresh ht hu
    | some e => exact h'.poisoned (h.fresh hs (by simp [ht]))

theorem grows_onNative (f : Owner F → Owner F) : Grows s (s.onNative f) :=
  ⟨rfl, id, id, fun _ => id, fun h h' => by simp [St.onNative, h] at h'⟩

theorem poisoned_poison (e : Cause) : (poison (E := E) e s).2.poisoned.isSome := by
  simp [poison]

theorem grows_poison (e : Cause) : Grows s (poison (E := E) e s).2 where
  active := rfl
  closed := id
  poisoned _ := poisoned_poison e
  failure e' he := by simp [poison, he]
  fresh _ _ := poisoned_poison e

theorem grows_orPoison (r : Result) : Grows s (orPoison (E := E) r s).2 := by
  cases r with
  | ok _ => exact Grows.refl s
  | error e => exact grows_poison e

theorem Stable.ret (a : α) : Stable (Comp.ret a : Op F E α) := Grows.refl

theorem Stable.bind {c : Op F E α} {k : α → Op F E β} (hc : Stable c) (hk : ∀ a, Stable (k a)) :
    Stable (c >>= k) := by
  intro s
  have h := hc s
  match hcs : c s with
  | (.ok a, t) =>
    rw [hcs] at h
    rw [Comp.bind_ok hcs]
    exact h.trans (hk a t)
  | (.error e, t) =>
    rw [hcs] at h
    rw [Comp.bind_error hcs]
    exact h

theorem stable_modify {f : St F → St F} (h : ∀ s, Grows s (f s)) :
    Stable (Comp.modify f : Op F E Unit) := h

theorem stable_call (k : ℕ) (f : Owner F → Owner F) : Stable (call amb k f) := by
  intro s
  unfold call
  split <;> exact grows_onNative f

theorem stable_status : Stable (status : Op F E Result) := Grows.refl

theorem Stable.checked {work : Op F E Result} (h : Stable work) (k : ℕ) :
    Stable (checked amb k work) := by
  unfold Appender.checked
  cases amb.before k with
  | error c => exact Stable.ret _
  | ok _ => exact h

theorem Stable.clearing {work : Op F E Result} (h : Stable work) : Stable (clearing work) :=
  fun s => (h s).trans (grows_onNative _)

theorem Stable.operation {work : Op F E Result} (h : Stable work) :
    Stable (operation amb work) := by
  intro s
  have hs := h s
  obtain ⟨c, -, he⟩ | ⟨-, e, -, he⟩ | ⟨-, -, ⟨t, ht, he⟩ | ⟨e, t, ht, he⟩ | ⟨e, t, ht, he⟩⟩ :=
    operation_cases amb work s
  · rw [he]
    exact Grows.refl s
  · rw [he]
    exact Grows.refl s
  · rw [he]
    rw [ht] at hs
    exact hs.trans (grows_orPoison _)
  · rw [he]
    rw [ht] at hs
    exact hs.trans (grows_poison e)
  · rw [he]
    rw [ht] at hs
    exact hs.trans (grows_poison (E := E) interrupted)

theorem stable_appendStaged (null : Option (ℕ × ℕ)) :
    Stable (appendStaged (F := F) G amb null) := by
  refine Stable.clearing (Stable.operation ?_)
  cases null with
  | some x => exact Stable.ret _
  | none => exact Stable.checked ((stable_call 0 _).bind fun _ => stable_status) 0

theorem stable_appendRows {ts : List Ty} (fields : Fields F E ts) (rows : List (Args F ts)) :
    Stable (appendRows G amb fields rows) := by
  intro s
  unfold appendRows
  split
  case h_1 _ _ p _ | h_2 _ p _ => exact grows_onNative fun _ => p.clearInput
  case h_3 null p _ => exact (grows_onNative fun _ => p).trans (stable_appendStaged null _)

theorem stable_sliceAll (stage : ℕ → ℕ → Owner F → Owner F) (k : ℕ) (xs : List (ℕ × ℕ)) :
    Stable (sliceAll G amb stage k xs) := by
  induction xs generalizing k with
  | nil => exact Stable.ret _
  | cons x xs ih =>
    have hslice : Stable (appendSlice G amb stage k x.1 x.2) :=
      Stable.checked ((stable_modify fun _ => grows_onNative _).bind fun _ =>
        (stable_call k _).bind fun _ => stable_status) k
    refine hslice.bind fun r => ?_
    cases r with
    | error c => exact Stable.ret _
    | ok _ => exact ih (k + 1)

theorem stable_appendBulk {ts : List Ty} (fields : Fields F E ts) (bulk : Bulk F ts) :
    Stable (appendBulk G amb fields bulk) := by
  intro s
  unfold appendBulk
  split
  · exact Grows.refl s
  · exact Stable.clearing (Stable.operation (stable_sliceAll _ _ _)) s

theorem stable_flushNative : Stable (flushNative (F := F) amb) :=
  (stable_call 0 _).bind fun _ => stable_status

theorem stable_flushAppender : Stable (flushAppender (F := F) amb) :=
  Stable.operation stable_flushNative

theorem stable_selectColumns (names : List String) (indices : List ℕ) (refused : Option Cause) :
    Stable (selectColumns (F := F) amb names indices refused) := by
  refine Stable.operation ((stable_call 0 _).bind fun _ => stable_status.bind fun r => ?_)
  cases r with
  | error c => exact Stable.ret _
  | ok _ =>
    refine (stable_modify fun s => ?_).bind fun _ => Stable.ret _
    exact ⟨rfl, id, id, fun _ => id, fun h h' => by simp [h] at h'⟩

theorem stable_lastFlush : Stable (lastFlush (F := F) amb) := by
  intro s
  unfold lastFlush
  split
  · exact Grows.refl s
  · exact stable_flushNative.bind (fun _ => Stable.ret _) s

variable (amb) in
theorem stable_destroy : Stable (destroy (F := F) amb) := by
  intro s
  unfold destroy
  split
  · exact Grows.refl s
  · split
    · exact Grows.refl s
    · dsimp only
      split <;> exact grows_onNative _

theorem grows_unregister : Grows s (unregister s) :=
  ⟨rfl, fun _ => rfl, id, fun _ => id, fun h h' => by simp [unregister, h] at h'⟩

theorem stable_closeAppender : Stable (closeAppender (F := F) amb) := by
  intro s
  unfold closeAppender
  split
  · exact Grows.refl s
  · split
    · exact Grows.refl s
    · have h : Grows s (destroy amb (lastFlush amb
          (orPoison (E := E) (amb.before 0) s).2).2).2 :=
        (grows_orPoison _).trans ((stable_lastFlush _).trans (stable_destroy _ _))
      dsimp only
      split
      · split
        · exact h.trans grows_unregister
        · exact h.trans ((grows_orPoison _).trans grows_unregister)
      all_goals exact h.trans ((grows_poison (E := E) interrupted).trans grows_unregister)

theorem stable_forceClose : Stable (forceClose (F := F) amb) := by
  intro s
  unfold forceClose
  split
  · exact Grows.refl s
  · exact (grows_poison (E := E) unclosed).trans ((stable_destroy _ _).trans grows_unregister)

end Stable

/-! ### What poisons -/

/-- A failure has poisoned, and the appender has its first failure, which is the one reported. -/
structure Stuck (r : Except (Exn E) Result) (t : St F) : Prop where
  poisoned : t.poisoned.isSome
  failure : ∃ e, t.app.failure = some e ∧ ∀ e', r = .ok (.error e') → e' = e

/-- What an appender that has failed with `e` answers. -/
def refusal (amb : Ambient E) (e : Cause) (s : St F) : Except (Exn E) Result :=
  match admission amb s with
  | .error c => .ok (.error c)
  | .ok () => .ok (.error e)

/-- The appender gives every operation one answer, whatever is staged. -/
def Answers (amb : Ambient E) (s : St F) (x : Except (Exn E) Result) : Prop :=
  ∀ (p : Owner F) (work : Op F E Result), (operation amb work (s.onNative fun _ => p)).1 = x

section Poisons

variable {G : Engine} {amb : Ambient E} {s t : St F} {e : Cause} {ts : List Ty}
  {fields : Fields F E ts}

theorem stuck_poison (e : Cause) : Stuck (poison (E := E) e s).1 (poison (E := E) e s).2 :=
  ⟨poisoned_poison e, s.app.failure.getD e, rfl, fun _ h => (Except.error.inj (Except.ok.inj h)).symm⟩

/-- **An operation that is admitted and fails** poisons. -/
theorem stuck_operation {work : Op F E Result} (hs : s.app.failure.isSome → s.poisoned.isSome)
    (ha : admission amb s = .ok ()) (hne : (operation amb work s).1 ≠ .ok (.ok ())) :
    Stuck (operation amb work s).1 (operation amb work s).2 := by
  obtain ⟨c, hc, -⟩ | ⟨-, e, hf, he⟩ | ⟨-, -, ⟨t, -, he⟩ | ⟨e, t, -, he⟩ | ⟨e, t, -, he⟩⟩ :=
    operation_cases amb work s
  · rw [ha] at hc
    cases hc
  · rw [he]
    exact ⟨hs (by simp [hf]), e, hf, fun _ h => (Except.error.inj (Except.ok.inj h)).symm⟩
  · rw [he] at hne ⊢
    cases hafter : amb.after with
    | ok _ =>
      rw [hafter] at hne
      exact absurd rfl hne
    | error c => exact stuck_poison c
  · rw [he]
    exact stuck_poison e
  · rw [he]
    exact ⟨poisoned_poison (E := E) interrupted, _, rfl, fun _ h => nomatch h⟩

/-- **After a failure** an operation that is admitted answers with it. -/
theorem answers_refusal (hf : s.app.failure = some e) : Answers amb s (refusal amb e s) := by
  intro p work
  have ha : admission amb (s.onNative fun _ => p) = admission amb s := rfl
  unfold operation refusal
  rw [ha]
  cases admission amb s with
  | error c => rfl
  | ok _ =>
    have hf : (s.onNative fun _ => p).app.failure = some e := hf
    simp only [hf]

/-- **After its scope** an appender admits no operation. -/
theorem answers_closed (hc : s.app.childOpen = false) : Answers amb s (.ok (.error .closed)) := by
  intro p work
  have ha : admission amb (s.onNative fun _ => p) = .error .closed := by
    simp [admission, admitOperation, St.onNative, hc]
  unfold operation
  rw [ha]

theorem stuck_clearing {work : Op F E Result} (h : Stuck (work s).1 (work s).2) :
    Stuck (clearing work s).1 (clearing work s).2 := ⟨h.poisoned, h.failure⟩

variable (amb) in
/-- Rows that are encoded go to an operation. -/
theorem appendRows_encoded (hs : s.Ok G) {rows : List (Args F ts)}
    {cells : List (List (Option (Datum F)))}
    (h : encodeRows fields rows = .ok cells) : ∃ q null,
      appendRows G amb fields rows s = appendStaged G amb null (s.onNative fun _ => q) := by
  obtain ⟨q, hrun, -⟩ := stageRows_eq s.app.mayBeNull fields rows
    (hs.native.stageBegin (amb.grant 0) rows.length) 0 none
  rw [h] at hrun
  exact ⟨q, _, by rw [appendRows, hrun]; rfl⟩

theorem stuck_appendRows (hs : s.Ok G) (hp : s.app.failure.isSome → s.poisoned.isSome)
    {rows : List (Args F ts)} (hcells : ∃ cells, encodeRows fields rows = .ok cells)
    (ha : admission amb s = .ok ()) (hne : (appendRows G amb fields rows s).1 ≠ .ok (.ok ())) :
    Stuck (appendRows G amb fields rows s).1 (appendRows G amb fields rows s).2 := by
  obtain ⟨cells, hcells⟩ := hcells
  obtain ⟨q, null, he⟩ := appendRows_encoded amb hs hcells
  rw [he] at hne ⊢
  exact stuck_clearing (stuck_operation hp ha hne)

theorem stuck_appendBulk (hp : s.app.failure.isSome → s.poisoned.isSome) {bulk : Bulk F ts}
    (hcheck : checkColumnsBulk s.app fields bulk 0 bulk.length = .ok ())
    (ha : admission amb s = .ok ()) (hne : (appendBulk G amb fields bulk s).1 ≠ .ok (.ok ())) :
    Stuck (appendBulk G amb fields bulk s).1 (appendBulk G amb fields bulk s).2 := by
  rw [appendBulk, hcheck] at hne ⊢
  exact stuck_clearing (stuck_operation hp ha hne)

/-- **A batch when every operation gets one answer**: a rejection of its own comes first. -/
theorem appendRows_answer (hs : s.Ok G) {x : Except (Exn E) Result} (hx : Answers amb s x)
    (rows : List (Args F ts)) :
    (appendRows G amb fields rows s).1 =
      match encodeRows fields rows with
      | .error (.rejected index reason) => .ok (.error (.encodeRejected index reason))
      | .error (.raised x) => .error x
      | .ok _ => x := by
  cases hcells : encodeRows fields rows with
  | ok cells =>
    obtain ⟨q, null, he⟩ := appendRows_encoded amb hs hcells
    rw [he]
    unfold appendStaged
    rw [clearing_fst]
    exact hx q _
  | error halt =>
    obtain ⟨q, hrun, -⟩ := stageRows_eq s.app.mayBeNull fields rows
      (hs.native.stageBegin (amb.grant 0) rows.length) 0 none
    rw [hcells] at hrun
    rw [appendRows, hrun]
    cases halt <;> rfl

theorem appendBulk_answer {x : Except (Exn E) Result} (hx : Answers amb s x) (bulk : Bulk F ts) :
    (appendBulk G amb fields bulk s).1 =
      match checkColumnsBulk s.app fields bulk 0 bulk.length with
      | .error c => .ok (.error c)
      | .ok () => x := by
  unfold appendBulk
  cases checkColumnsBulk s.app fields bulk 0 bulk.length with
  | error c => rfl
  | ok _ =>
    dsimp only
    rw [appendSlices, clearing_fst]
    exact hx s.app.native _

/-! ### What leaves no trace -/

/-- **A batch whose encoding stops** changes nothing that lasts, when its allocations are granted. -/
theorem lasting_rejected (hs : s.Ok G) {rows : List (Args F ts)} {halt : Halt E}
    (hgrant : Ample G (amb.grant 0) rows.length) (h : encodeRows fields rows = .error halt) :
    (appendRows G amb fields rows s).2.lasting = s.lasting := by
  obtain ⟨q, hrun, hq⟩ := stageRows_eq s.app.mayBeNull fields rows
    (hs.native.stageBegin (amb.grant 0) rows.length) 0 none
  have hbegun : q.lasting = s.app.native.lasting := by
    rw [hq.lasting, lasting_begun hs.native, begun_of_none (hgrant.shortage (Nat.le_refl _) _)]
  rw [h] at hrun
  rw [appendRows, hrun]
  cases halt <;>
    exact St.lasting_onNative (s := s) (t := s) rfl ((Owner.lasting_clearInput).trans hbegun)

theorem appendBulk_rejected {bulk : Bulk F ts} {c : Cause}
    (h : checkColumnsBulk s.app fields bulk 0 bulk.length = .error c) :
    appendBulk G amb fields bulk s = (.ok (.error c), s) := by
  rw [appendBulk, h]

end Poisons

/-! ### The scope of an appender -/

/-- An operation of the appender within its scope, which remembers the error of its callback. -/
def inScope (op : Op F E α) : Operation (St F × Option Failure) E α := fun s =>
  let (r, t) := op s.inner.1
  (r, ⟨s.denied, (t, s.inner.2)⟩)

section Definitions

variable (context : Context) (callback : Operation (St F × Option Failure) E (Except Failure α))
  (closing cleaning : Ambient E)

/-- The callback, and the close of the appender after it. -/
def appenderWork : Operation (St F × Option Failure) E (Except Cause (Except Failure α)) := do
  match ← callback with
  | .error e =>
    Comp.modify fun s => ⟨s.denied, (s.inner.1.poison typedFailure, some e)⟩
    return .ok (.error e)
  | .ok x =>
    let closed ← inScope (closeAppender closing)
    return .ok ((within context closed).map fun _ => x)

/-- `with_appender_transaction`, after the appender has been opened. -/
def withAppender : Op F E (Except Failure α) := fun s =>
  match scope (.cause context) (appenderWork context callback closing) (inScope (forceClose cleaning))
    ⟨false, (s, none)⟩ with
  | (.ok (.ok outcome), t) => (.ok outcome, t.inner.1)
  | (.ok (.error cause), t) => (.ok (.error ⟨context, cause⟩), t.inner.1.poison cause)
  | (.error e, t) =>
    (.error (match t.inner.2 with
      | some primary => .cleanup primary e
      | none => e), t.inner.1.poison typedFailure)

end Definitions

/-- How a callback ends: what it returns or raises, and whether it tried an effect. -/
structure Ended (E α : Type) where
  result : Except (Exn E) (Except Failure α)
  denied : Bool

/-- The end of a callback whose operations have been made. -/
def Ended.callback {S : Type} (x : Ended E α) : Operation S E (Except Failure α) := fun s =>
  (x.result, { s with denied := s.denied || x.denied })

section Scope

variable {context : Context} {callback : Operation (St F × Option Failure) E (Except Failure α)}
  {closing cleaning amb : Ambient E} {s t : St F}

theorem Grows.marked (h : Grows s t) (hs : s.app.failure.isSome → s.poisoned.isSome) :
    t.app.failure.isSome → t.poisoned.isSome := by
  intro ht
  cases hf : s.app.failure with
  | none => exact h.fresh hf ht
  | some e => exact h.poisoned (hs (by simp [hf]))

theorem grows_tx (e : Cause) : Grows s (s.poison e) :=
  ⟨rfl, id, fun _ => by simp [St.poison], fun _ => id, fun h h' => by simp [St.poison, h] at h'⟩

theorem poisoned_tx (e : Cause) : (s.poison e).poisoned.isSome := by simp [St.poison]

theorem forceClose_closed : (forceClose amb s).2.app.childOpen = false := by
  unfold forceClose
  split
  case isTrue h => simpa using h
  case isFalse => rfl

theorem forceClose_open (h : s.app.childOpen = true) : (forceClose amb s).2.poisoned.isSome := by
  unfold forceClose
  rw [if_neg (by simp [h])]
  have hpoison : (poison (E := E) unclosed s).2.poisoned.isSome := poisoned_poison unclosed
  exact ((stable_destroy amb _).trans grows_unregister).poisoned hpoison

theorem poisoned_orPoison {r : Result} {c : Cause} (h : (orPoison (E := E) r s).1 = .ok (.error c)) :
    (orPoison (E := E) r s).2.poisoned.isSome := by
  cases r with
  | ok _ => cases h
  | error e => exact poisoned_poison (E := E) e

variable (amb) in
/-- A close that fails has poisoned, or it was not admitted and leaves the appender open. -/
theorem closeAppender_error {c : Cause} (hs : s.app.failure.isSome → s.poisoned.isSome)
    (h : (closeAppender amb s).1 = .ok (.error c)) :
    (closeAppender amb s).2.poisoned.isSome ∨ (closeAppender amb s).2.app.childOpen = true := by
  unfold closeAppender at h ⊢
  split at h
  case isTrue => cases h
  case isFalse hopen =>
    rw [if_neg hopen]
    split at h
    case h_1 =>
      exact .inr (by simpa using hopen)
    case h_2 =>
      refine .inl ?_
      have hgrows : Grows s (destroy amb (lastFlush amb
          (orPoison (E := E) (amb.before 0) s).2).2).2 :=
        (grows_orPoison _).trans ((stable_lastFlush _).trans (stable_destroy _ _))
      dsimp only at h ⊢
      split at h
      · split at h
        · rename_i hfail
          exact hgrows.marked hs (by simp [hfail])
        · exact poisoned_orPoison h
      all_goals cases h

variable (amb) in
theorem completeCleanup_forceClose (s : Handled (St F × Option Failure)) :
    Grows s.inner.1 (completeCleanup (inScope (forceClose amb)) s).2.inner.1 ∧
      (completeCleanup (inScope (forceClose amb)) s).2.inner.1.app.childOpen = false ∧
      (s.inner.1.app.childOpen = true →
        (completeCleanup (inScope (forceClose amb)) s).2.inner.1.poisoned.isSome) := by
  have hfirst : ∀ s : Handled (St F × Option Failure),
      Grows s.inner.1 (inScope (forceClose amb) s).2.inner.1 ∧
      (inScope (forceClose amb) s).2.inner.1.app.childOpen = false ∧
      (s.inner.1.app.childOpen = true → (inScope (forceClose amb) s).2.inner.1.poisoned.isSome) :=
    fun s => ⟨stable_forceClose _, forceClose_closed, forceClose_open⟩
  obtain ⟨hgrows, hclosed, hopen⟩ := hfirst s
  unfold completeCleanup Comp.catching
  match hrun : inScope (forceClose amb) s with
  | (.ok _, t) =>
    rw [hrun] at hgrows hclosed hopen
    exact ⟨hgrows, hclosed, hopen⟩
  -- the cleanup is run again after a Break, and finds the appender closed
  | (.error .sysBreak, t) =>
    rw [hrun] at hgrows hclosed hopen
    obtain ⟨hgrows', hclosed', -⟩ := hfirst t
    dsimp only
    match hagain : inScope (forceClose amb) t with
    | (.ok _, u) =>
      rw [hagain] at hgrows' hclosed'
      rw [Comp.bind_ok hagain]
      exact ⟨hgrows.trans hgrows', hclosed', fun h => hgrows'.poisoned (hopen h)⟩
    | (.error e, u) =>
      rw [hagain] at hgrows' hclosed'
      rw [Comp.bind_error hagain]
      exact ⟨hgrows.trans hgrows', hclosed', fun h => hgrows'.poisoned (hopen h)⟩
  -- any other exception goes on, with the appender closed all the same
  | (.error (.raised x), t) | (.error .effectDenied, t) | (.error (.both x y), t)
  | (.error (.cleanup x y), t) =>
    rw [hrun] at hgrows hclosed hopen
    exact ⟨hgrows, hclosed, hopen⟩

variable (context closing) in
/-- What the work of a scope keeps, and when it fails: then it has poisoned, or the appender is still
open. -/
theorem appenderWork_spec (hcallback : ∀ s, Grows s.inner.1 (callback s).2.inner.1)
    (s : Handled (St F × Option Failure)) (hs : s.inner.1.app.failure.isSome →
      s.inner.1.poisoned.isSome) :
    Grows s.inner.1 (appenderWork context callback closing s).2.inner.1 ∧
      ∀ r, (appenderWork context callback closing s).1 = .ok r → (∃ a, r = .ok (.ok a)) ∨
        (appenderWork context callback closing s).2.inner.1.poisoned.isSome ∨
        (appenderWork context callback closing s).2.inner.1.app.childOpen = true := by
  have hgrows := hcallback s
  unfold appenderWork
  match hrun : callback s with
  -- the callback raises, which is seen to by the scope
  | (.error e, t) =>
    rw [hrun] at hgrows
    rw [Comp.bind_error hrun]
    exact ⟨hgrows, fun r h => nomatch h⟩
  -- its typed failure poisons at once
  | (.ok (.error e), t) =>
    rw [hrun] at hgrows
    rw [Comp.bind_ok hrun]
    exact ⟨hgrows.trans (grows_tx typedFailure), fun r _ => .inr (.inl (poisoned_tx typedFailure))⟩
  | (.ok (.ok x), t) =>
    rw [hrun] at hgrows
    rw [Comp.bind_ok hrun]
    dsimp only
    -- it succeeds, and the close may fail
    have hclose : Grows t.inner.1 (closeAppender closing t.inner.1).2 := stable_closeAppender _
    match hc : closeAppender closing t.inner.1 with
    | (.error e, u) =>
      rw [hc] at hclose
      rw [Comp.bind_error (t := ⟨t.denied, (u, t.inner.2)⟩) (e := e) (by rw [inScope, hc])]
      exact ⟨hgrows.trans hclose, fun r h => nomatch h⟩
    | (.ok closed, u) =>
      rw [hc] at hclose
      rw [Comp.bind_ok (t := ⟨t.denied, (u, t.inner.2)⟩) (a := closed) (by rw [inScope, hc])]
      refine ⟨hgrows.trans hclose, fun r h => ?_⟩
      cases closed with
      | ok _ =>
        cases h
        exact .inl ⟨x, rfl⟩
      | error c =>
        have := closeAppender_error closing (c := c) (hgrows.marked hs) (by rw [hc])
        rw [hc] at this
        exact .inr this

/-- A scope succeeds only when its callback does, without an effect. -/
theorem withAppender_ok {ended : Ended E α} {x : α}
    (h : (withAppender context ended.callback closing cleaning s).1 = .ok (.ok x)) :
    ended.result = .ok (.ok x) ∧ ended.denied = false := by
  unfold withAppender at h
  match hscope : scope (.cause context) (appenderWork context ended.callback closing)
    (inScope (forceClose cleaning)) ⟨false, (s, none)⟩ with
  | (.ok (.error cause), t) | (.error e, t) =>
    rw [hscope] at h
    cases h
  | (.ok (.ok outcome), t) =>
    rw [hscope] at h
    obtain rfl : outcome = .ok x := Except.ok.inj h
    -- a scope that succeeds has done so through its work
    obtain h | ⟨cause, -, h⟩ := scope_fst (congrArg Prod.fst hscope)
    · obtain ⟨u, hu, hdenied, -⟩ := withoutEscapingEffects_ok h
      obtain ⟨result, denied⟩ := ended
      unfold appenderWork at hu
      -- the work succeeds with the callback and the close
      match result with
      | .error e => cases hu
      | .ok (.error e) => cases hu
      | .ok (.ok y) =>
        rw [Comp.bind_ok (c := Ended.callback ⟨.ok (.ok y), denied⟩) (a := .ok y) rfl] at hu
        dsimp only at hu
        match hc : closeAppender closing s with
        | (.error e, v) =>
          rw [Comp.bind_error (t := ⟨false || denied, (v, none)⟩) (e := e)
            (by rw [inScope, hc])] at hu
          cases hu
        | (.ok closed, v) =>
          rw [Comp.bind_ok (t := ⟨false || denied, (v, none)⟩) (a := closed)
            (by rw [inScope, hc])] at hu
          cases closed with
          | error c => cases hu
          | ok _ =>
            cases hu
            exact ⟨rfl, by simpa using hdenied⟩
    · cases h

variable (context callback closing cleaning) in
/-- **The scope of an appender** closes it, and poisons unless it succeeds. -/
theorem withAppender_spec (hcallback : ∀ s, Grows s.inner.1 (callback s).2.inner.1)
    (hs : s.app.failure.isSome → s.poisoned.isSome) :
    Grows s (withAppender context callback closing cleaning s).2 ∧
      (withAppender context callback closing cleaning s).2.app.childOpen = false ∧
      ((∃ a, (withAppender context callback closing cleaning s).1 = .ok (.ok a)) ∨
        (withAppender context callback closing cleaning s).2.poisoned.isSome) := by
  obtain ⟨hwork, hfails⟩ := appenderWork_spec context closing hcallback
    ⟨false, (s, none)⟩ hs
  have hinner := withoutEscapingEffects_inner (appenderWork context callback closing)
    ⟨false, (s, none)⟩
  -- the cleanup closes the appender, and poisons if it was still open
  obtain ⟨hgrows, hclosed, hopen⟩ := completeCleanup_forceClose cleaning
    (withoutEscapingEffects (appenderWork context callback closing) ⟨false, (s, none)⟩).2
  rw [hinner] at hgrows hopen
  have hsnd : (scope (.cause context) (appenderWork context callback closing)
    (inScope (forceClose cleaning)) ⟨false, (s, none)⟩).2 = _ := scope_snd
  rw [← hsnd] at hgrows hclosed hopen
  have hall := hwork.trans hgrows
  unfold withAppender
  match hscope : scope (.cause context) (appenderWork context callback closing)
    (inScope (forceClose cleaning)) ⟨false, (s, none)⟩ with
  -- whatever fails is recorded in the transaction
  | (.ok (.error cause), t) =>
    rw [hscope] at hall hclosed
    exact ⟨hall.trans (grows_tx cause), hclosed, .inr (poisoned_tx cause)⟩
  | (.error e, t) =>
    rw [hscope] at hall hclosed
    exact ⟨hall.trans (grows_tx typedFailure), hclosed, .inr (poisoned_tx typedFailure)⟩
  | (.ok (.ok outcome), t) =>
    rw [hscope] at hall hclosed hgrows hopen
    refine ⟨hall, hclosed, ?_⟩
    obtain h | ⟨cause, -, h⟩ := scope_fst (congrArg Prod.fst hscope)
    · obtain ⟨u, hu, -⟩ := withoutEscapingEffects_ok h
      obtain ⟨a, ha⟩ | hpoisoned | hleft := hfails (.ok outcome) (by rw [hu])
      · exact .inl ⟨a, congrArg Except.ok (Except.ok.inj ha)⟩
      · exact .inr (hgrows.poisoned hpoisoned)
      · exact .inr (hopen hleft)
    · cases h

end Scope

end DuckdbMl.Appender
