import DuckdbMl.Appender.Poison

/-!
# A transaction with appenders

A transaction opens appenders, each in a scope, and its callback may ignore every error. At its end
the appenders that are left are closed, and the transaction commits unless something has poisoned it.

## Main definitions

* `Session`, `session`: a transaction with its appenders, and what may happen in it
* `Fails`: the steps in which something fails
* `Healthy`: a transaction with one open appender that has not failed

## Main results

* `failures_cannot_commit`: after a failure there is no COMMIT, and the appender keeps failing; a
  rejected batch changes nothing, and further rows can be appended and committed
-/

namespace DuckdbMl.Appender

open Effects Transition
open DuckdbMl.Decode (Floats)

/-- A transaction, with the appenders that it has opened, and whether COMMIT has been sent. -/
structure Session (F : Floats) where
  active : Bool
  poisoned : Option Cause
  committed : Bool
  apps : List (App F)

/-- The operations that a callback makes on its appender. -/
inductive Request (F : Floats) (E : Type) : Type 1
  | append (amb : Ambient E) {ts : List Ty} (fields : Fields F E ts) (rows : List (Args F ts))
  | appendColumns (amb : Ambient E) {ts : List Ty} (fields : Fields F E ts) (bulk : Bulk F ts)
  | flush (amb : Ambient E)

/-- What happens in a transaction: an appender is opened, an operation is made on it, its scope ends;
something else fails; the transaction ends. -/
inductive Event (F : Floats) (E : Type) : Type 1
  | openTyped (o : Opening E) (t : Table F E)
  | request (i : ℕ) (r : Request F E)
  | finish (i : ℕ) (context : Context) (ended : Ended E Unit) (closing cleaning : Ambient E)
  | fail (e : Cause)
  | settle (ended : Ended E Unit) (cleaning : ℕ → Ambient E) (checkpoint : Result)

variable {F : Floats} {E : Type}

def Request.ambient : Request F E → Ambient E
  | .append amb _ _ => amb
  | .appendColumns amb _ _ => amb
  | .flush amb => amb

def Request.run (G : Engine) : Request F E → Op F E Result
  | .append amb fields rows => appendRows G amb fields rows
  | .appendColumns amb fields bulk => appendBulk G amb fields bulk
  | .flush amb => flushAppender amb

/-- A rejection by a codec, or by the checks of columns. -/
def Request.rejection (a : App F) : Request F E → Option (Except (Exn E) Result)
  | .append _ fields rows =>
    match encodeRows fields rows with
    | .error (.rejected index reason) => some (.ok (.error (.encodeRejected index reason)))
    | .error (.raised e) => some (.error e)
    | .ok _ => none
  | .appendColumns _ fields bulk =>
    match checkColumnsBulk a fields bulk 0 bulk.length with
    | .error c => some (.ok (.error c))
    | .ok () => none
  | .flush _ => none

/-- No allocation fails. -/
def Request.Granted (G : Engine) : Request F E → Prop
  | .append amb _ rows => Ample G (amb.grant 0) rows.length
  | .appendColumns _ _ _ => True
  | .flush _ => True

section Definitions

variable (G : Engine)

/-- An appender of the transaction. -/
def Session.at (s : Session F) (a : App F) : St F := ⟨a, s.active, s.poisoned⟩

def Session.put (s : Session F) (i : ℕ) (u : St F) : Session F :=
  { s with apps := s.apps.set i u.app, active := u.active, poisoned := u.poisoned }

def Session.opened (s : Session F) : Tx ⊕ St F → Session F
  | .inl tx => { s with active := tx.active, poisoned := tx.poisoned }
  | .inr u => { s with apps := s.apps ++ [u.app], active := u.active, poisoned := u.poisoned }

/-- The appenders that are left are closed at the end of a transaction, whose token is revoked. -/
def drain (cleaning : ℕ → Ambient E) : ℕ → List (App F) → Option Cause →
    Except (Exn E) Unit × List (App F) × Option Cause
  | _, [], poisoned => (.ok (), [], poisoned)
  | k, a :: apps, poisoned =>
    let (r, u) := forceClose (cleaning k) ⟨a, false, poisoned⟩
    let (rest, apps, poisoned) := drain cleaning (k + 1) apps u.poisoned
    let r := match r, rest with
      | .ok (), rest => rest
      | .error e, .ok () => .error e
      | .error e, .error e' => .error (.both e e')
    (r, u.app :: apps, poisoned)

/-- The end of a transaction. COMMIT is sent when the callback returned a value, nothing was raised
by the cleanups, nothing has poisoned, and the request is not cancelled. -/
def Session.settle (s : Session F) (ended : Ended E Unit) (cleaning : ℕ → Ambient E)
    (checkpoint : Result) : Session F :=
  let (drained, apps, poisoned) := drain cleaning 0 s.apps s.poisoned
  let commits := match ended.result, ended.denied, drained, poisoned, checkpoint with
    | .ok (.ok ()), false, .ok (), none, .ok () => true
    | _, _, _, _, _ => false
  { active := false, poisoned, apps, committed := s.committed || commits }

def step (s : Session F) : Event F E → Option (Session F)
  | .openTyped o t => some (s.opened (openTyped o t ⟨s.active, s.poisoned⟩).2)
  | .request i r => s.apps[i]?.map fun a => s.put i (r.run G (s.at a)).2
  | .finish i context ended closing cleaning =>
    s.apps[i]?.bind fun a =>
      if a.childOpen then
        some (s.put i (withAppender context ended.callback closing cleaning (s.at a)).2)
      else none
  | .fail e => some { s with poisoned := s.poisoned.or (some e) }
  | .settle ended cleaning checkpoint =>
    if s.active then some (s.settle ended cleaning checkpoint) else none

/-- A transaction that has just begun, and what may happen in it. -/
def session (F : Floats) (E : Type) : System (Session F) (Event F E) where
  start s := s = ⟨true, none, false, []⟩
  step := step G

/-- What the opening of an appender meets before there is one. -/
def Opening.Begun (o : Opening E) (t : Table F E) : Prop :=
  o.read = .ok (.ok ()) ∧
    ((∃ c, o.indices t = .error c) ∨ (t.identifiers = .ok () ∧ o.admitted = .ok ()))

/-- Something fails: a declaration that does not match or the creation of an appender, an operation
that is neither rejected nor refused, the callback of an appender or its close, another operation, or
an appender that is left open at the end. -/
def Fails (s : Session F) : Event F E → Prop
  | .openTyped o t =>
    s.active = true ∧ o.Begun t ∧ (openTyped o t ⟨s.active, s.poisoned⟩).1 ≠ .ok (.ok ())
  | .request i r => ∃ a, s.apps[i]? = some a ∧ r.rejection a = none ∧
      admission r.ambient (s.at a) = .ok () ∧ (r.run G (s.at a)).1 ≠ .ok (.ok ())
  | .finish i context ended closing cleaning => ∃ a, s.apps[i]? = some a ∧
      (ended.result ≠ .ok (.ok ()) ∨ ended.denied = true ∨
        (withAppender context ended.callback closing cleaning (s.at a)).1 ≠ .ok (.ok ()))
  | .fail _ => s.active = true
  | .settle _ _ _ => ∃ a ∈ s.apps, a.childOpen = true

end Definitions

/-! ### The steps of a session -/

section Steps

variable {G : Engine} {amb : Ambient E} {o : Opening E} {t : Table F E} {tx : Tx} {s u : St F}

/-- What an operation keeps of an appender. -/
structure Kept (G : Engine) (s u : St F) : Prop where
  grows : Grows s u
  ok : s.Ok G → u.Ok G

theorem Kept.refl (s : St F) : Kept G s s := ⟨Grows.refl s, id⟩

theorem Request.kept (r : Request F E) (s : St F) : Kept G s (r.run G s).2 := by
  cases r with
  | append amb fields rows => exact ⟨stable_appendRows _ _ s, fun h => ok_appendRows _ h _ _⟩
  | appendColumns amb fields bulk => exact ⟨stable_appendBulk _ _ s, fun h => ok_appendBulk h _ _⟩
  | flush amb => exact ⟨stable_flushAppender s, ok_flushAppender⟩

theorem ok_tx {e : Cause} (h : s.Ok G) : (s.poison e).Ok G := ⟨h.native, h.same⟩

theorem unusable_snd (c : Cause) :
    (unusable o t c s).2 = (forceClose o.closing (s.poison typedFailure)).2 := by
  unfold unusable
  match forceClose o.closing (s.poison typedFailure) with
  | (.ok _, _) => rfl
  | (.error _, _) => rfl

theorem kept_unusable (c : Cause) : Kept G s (unusable o t c s).2 := by
  rw [unusable_snd]
  exact ⟨(grows_tx typedFailure).trans (stable_forceClose _), fun h => ok_forceClose (ok_tx h)⟩

theorem poisoned_unusable (c : Cause) : (unusable o t c s).2.poisoned.isSome := by
  rw [unusable_snd]
  exact (stable_forceClose _).poisoned (poisoned_tx _)

/-- An operation that raises poisons. -/
theorem poisoned_of_raise {work : Op F E Result} {e : Exn E} (h : (operation amb work s).1 = .error e) :
    (operation amb work s).2.poisoned.isSome := by
  obtain ⟨c, -, he⟩ | ⟨-, c, -, he⟩ | ⟨-, -, ⟨v, -, he⟩ | ⟨c, v, -, he⟩ | ⟨x, v, -, he⟩⟩ :=
    operation_cases amb work s
  · rw [he] at h
    cases h
  · rw [he] at h
    cases h
  · rw [he] at h
    cases hafter : amb.after <;> rw [hafter] at h <;> cases h
  · rw [he] at h
    cases h
  · rw [he]
    exact poisoned_poison (E := E) interrupted

/-- **The columns and types of a new appender** are checked, and it poisons unless they fit. -/
theorem fit_spec (indices : List ℕ) (s : St F) :
    Kept G s (fit o t indices s).2 ∧
      ((fit o t indices s).1 = .ok (.ok ()) ∨ (fit o t indices s).2.poisoned.isSome) := by
  -- the selection of columns keeps the appender, and raises only after it has poisoned
  have hrestrict : Kept G s (restrict o t indices s).2 ∧
      ∀ e, (restrict o t indices s).1 = .error e → (restrict o t indices s).2.poisoned.isSome := by
    unfold restrict
    split
    · exact ⟨Kept.refl s, fun e h => nomatch h⟩
    · exact ⟨⟨stable_selectColumns _ _ _ s, fun h => ok_selectColumns _ h _ _ _⟩,
        fun e h => poisoned_of_raise h⟩
  unfold fit
  match hr : restrict o t indices s with
  | (.error e, v) =>
    rw [hr] at hrestrict
    exact ⟨hrestrict.1, .inr (hrestrict.2 e rfl)⟩
  -- the selection is refused
  | (.ok (.error c), v) =>
    rw [hr] at hrestrict
    have h := kept_unusable (G := G) (o := o) (t := t) (s := v) c
    exact ⟨⟨hrestrict.1.grows.trans h.grows, fun hs => h.ok (hrestrict.1.ok hs)⟩,
      .inr (poisoned_unusable c)⟩
  | (.ok (.ok _), v) =>
    rw [hr] at hrestrict
    dsimp only
    split
    -- the types do not fit
    · rename_i c _
      have h := kept_unusable (G := G) (o := o) (t := t) (s := v) c
      exact ⟨⟨hrestrict.1.grows.trans h.grows, fun hs => h.ok (hrestrict.1.ok hs)⟩,
        .inr (poisoned_unusable c)⟩
    · exact ⟨hrestrict.1, .inl rfl⟩

theorem openAppender_spec (o : Opening E) (t : Table F E) (tx : Tx) :
    (∃ r tx', openAppender o t tx = (r, tx') ∧ (∀ a, r ≠ .ok (.ok a)) ∧ tx'.active = tx.active ∧
      (tx.poisoned.isSome → tx'.poisoned.isSome) ∧
      (t.identifiers = .ok () → o.admission tx = .ok () → tx'.poisoned.isSome)) ∨
    (tx.active = true ∧ openAppender o t tx = (.ok (.ok o.app), tx)) := by
  unfold openAppender
  split
  -- the name of the table is refused: nothing has begun
  · rename_i c hidentifiers
    exact .inl ⟨_, _, rfl, (fun a h => by cases h), rfl, id,
      fun h => by rw [hidentifiers] at h; cases h⟩
  · split
    -- the transaction does not admit it
    · rename_i c hadmission
      exact .inl ⟨_, _, rfl, (fun a h => by cases h), rfl, id,
        fun _ h => by rw [hadmission] at h; cases h⟩
    · rename_i hadmission
      split
      -- the appender has been made
      · refine .inr ⟨?_, rfl⟩
        cases hactive : tx.active with
        | true => rfl
        | false =>
          rw [Opening.admission, hactive] at hadmission
          cases hadmission
      -- it has not, which poisons
      · exact .inl ⟨_, _, rfl, (fun a h => by cases h), rfl, fun h => by simp [Tx.poison], fun _ _ => by
          simp [Tx.poison]⟩
      · exact .inl ⟨_, _, rfl, (fun a h => by cases h), rfl, fun h => by simp [Tx.poison], fun _ _ => by
          simp [Tx.poison]⟩

/-- **An opening** leaves the transaction, or an appender of an active transaction. -/
theorem openTyped_spec (o : Opening E) (t : Table F E) (tx : Tx) :
    (∃ tx', (openTyped o t tx).2 = .inl tx' ∧ tx'.active = tx.active ∧
      (tx.poisoned.isSome → tx'.poisoned.isSome) ∧
      (tx.active = true → o.Begun t → (openTyped o t tx).1 ≠ .ok (.ok ()) →
        tx'.poisoned.isSome)) ∨
    (tx.active = true ∧ ∃ u, (openTyped o t tx).2 = .inr u ∧
      Kept G ⟨o.app, tx.active, tx.poisoned⟩ u ∧
      ((openTyped o t tx).1 ≠ .ok (.ok ()) → u.poisoned.isSome)) := by
  unfold openTyped
  split
  -- the transaction has ended
  · rename_i hactive
    exact .inl ⟨tx, rfl, rfl, id, fun h => by simp [h] at hactive⟩
  · split
    -- the catalog could not be read
    · rename_i hread
      exact .inl ⟨tx, rfl, rfl, id, fun _ h => by cases hread.symm.trans h.1⟩
    · rename_i hread
      exact .inl ⟨tx, rfl, rfl, id, fun _ h => by cases hread.symm.trans h.1⟩
    · split
      -- the declaration does not fit the catalog
      · exact .inl ⟨_, rfl, rfl, fun _ => by simp [Tx.poison], fun _ _ _ => by simp [Tx.poison]⟩
      · rename_i indices hindices
        obtain ⟨r, tx', he, hr, hactive, hmono, hpoison⟩ | ⟨hactive, he⟩ := openAppender_spec o t tx
        · rw [he]
          have hbegun : tx.active = true → o.Begun t → tx'.poisoned.isSome := by
            rintro hactive ⟨-, ⟨c, hc⟩ | ⟨hidentifiers, hadmitted⟩⟩
            · rw [hindices] at hc
              cases hc
            · exact hpoison hidentifiers (by rw [Opening.admission, if_pos hactive, hadmitted])
          cases r with
          | error e => exact .inl ⟨tx', rfl, hactive, hmono, fun h h' _ => hbegun h h'⟩
          | ok r =>
            cases r with
            | error c => exact .inl ⟨tx', rfl, hactive, hmono, fun h h' _ => hbegun h h'⟩
            | ok a => exact absurd rfl (hr a)
        · rw [he]
          -- there is an appender now, which is fitted to the declaration
          obtain ⟨hkept, hfit⟩ := fit_spec (G := G) (o := o) (t := t) indices
            ⟨o.app, tx.active, tx.poisoned⟩
          exact .inr ⟨hactive, _, rfl, hkept, fun h => hfit.resolve_left h⟩

end Steps

/-! ### The invariant -/

/-- What holds of an appender of a transaction: a first failure has poisoned. -/
structure Sound (G : Engine) (a : App F) (poisoned : Option Cause) : Prop where
  native : a.native.Ok G
  same : a.failure = none → a.childOpen = true →
    a.native.closed = false ∧ a.types = a.native.types ∧ a.nullable = a.native.nullable
  marked : a.failure.isSome → poisoned.isSome

/-- What holds of a transaction: after COMMIT nothing is open. -/
structure Session.Inv (G : Engine) (s : Session F) : Prop where
  app : ∀ a ∈ s.apps, Sound G a s.poisoned
  finished : s.committed = true → s.active = false ∧ ∀ a ∈ s.apps, a.childOpen = false

/-- What every step does: the invariant stays, a poison stays and keeps COMMIT from being sent, and a
first failure stays. -/
structure Session.Advance (G : Engine) (s t : Session F) : Prop where
  inv : t.Inv G
  poisoned : s.poisoned.isSome → t.poisoned.isSome ∧ t.committed = s.committed
  sticky : ∀ (i : ℕ) (a : App F), s.apps[i]? = some a → ∃ b : App F, t.apps[i]? = some b ∧
    (∀ e, a.failure = some e → b.failure = some e) ∧ (a.childOpen = false → b.childOpen = false)

section Invariant

variable {G : Engine} {o : Opening E} {t : Table F E} {s : Session F} {a : App F} {u : St F}
  {poisoned p : Option Cause}

theorem Sound.mono (h : Sound G a poisoned) (hp : poisoned.isSome → p.isSome) : Sound G a p :=
  ⟨h.native, h.same, fun hf => hp (h.marked hf)⟩

theorem Sound.ok (h : Sound G a poisoned) (active : Bool) (p : Option Cause) :
    St.Ok G ⟨a, active, p⟩ := ⟨h.native, h.same⟩

theorem Sound.kept (h : Sound G a poisoned) {active : Bool} (hk : Kept G ⟨a, active, poisoned⟩ u) :
    Sound G u.app u.poisoned := by
  have hok := hk.ok (h.ok active poisoned)
  exact ⟨hok.native, hok.same, hk.grows.marked h.marked⟩

/-- **An appender that changes** as its operations do. -/
theorem advance_put (hs : s.Inv G) {i : ℕ} (ha : s.apps[i]? = some a) (hk : Kept G (s.at a) u) :
    s.Advance G (s.put i u) where
  inv := by
    refine ⟨fun b hb => ?_, fun hc => ?_⟩
    · obtain hb | rfl := List.mem_or_eq_of_mem_set hb
      · exact (hs.app b hb).mono hk.grows.poisoned
      · exact (hs.app a (List.mem_of_getElem? ha)).kept hk
    · obtain ⟨hactive, hclosed⟩ := hs.finished hc
      refine ⟨hk.grows.active.trans hactive, fun b hb => ?_⟩
      obtain hb | rfl := List.mem_or_eq_of_mem_set hb
      · exact hclosed b hb
      · exact hk.grows.closed (hclosed a (List.mem_of_getElem? ha))
  poisoned hp := ⟨hk.grows.poisoned hp, rfl⟩
  sticky j b hb := by
    by_cases hij : i = j
    · subst hij
      obtain rfl : a = b := Option.some.inj (ha.symm.trans hb)
      refine ⟨u.app, ?_, hk.grows.failure, hk.grows.closed⟩
      obtain ⟨hi, -⟩ := List.getElem?_eq_some_iff.mp ha
      simp [Session.put, hi]
    · exact ⟨b, by simpa [Session.put, List.getElem?_set_ne hij] using hb, fun _ => id, id⟩

theorem advance_openTyped (hs : s.Inv G) (o : Opening E) (t : Table F E) :
    s.Advance G (s.opened (openTyped o t ⟨s.active, s.poisoned⟩).2) := by
  obtain ⟨tx, he, hactive, hmono, -⟩ | ⟨hactive, u, he, hk, -⟩ :=
    openTyped_spec (G := G) o t ⟨s.active, s.poisoned⟩
  · rw [he]
    refine ⟨⟨fun b hb => (hs.app b hb).mono hmono, fun hc => ?_⟩, fun hp => ⟨hmono hp, rfl⟩,
      fun i b hb => ⟨b, hb, fun _ => id, id⟩⟩
    exact ⟨hactive.trans (hs.finished hc).1, (hs.finished hc).2⟩
  · rw [he]
    have hopened : Opened (F := F) ⟨o.app, Tx.active ⟨true, none⟩, Tx.poisoned ⟨true, none⟩⟩ :=
      Opening.app_opened
    have hnew : Sound G (o.app : App F) s.poisoned :=
      ⟨(hopened.ok (G := G)).native, (hopened.ok (G := G)).same, fun h => nomatch h⟩
    refine ⟨⟨fun b hb => ?_, fun hc => ?_⟩, fun hp => ⟨hk.grows.poisoned hp, rfl⟩,
      fun i b hb => ⟨b, ?_, fun _ => id, id⟩⟩
    · obtain hb | hb := List.mem_append.mp hb
      · exact (hs.app b hb).mono hk.grows.poisoned
      · rw [List.mem_singleton.mp hb]
        exact hnew.kept hk
    · rw [(hs.finished hc).1] at hactive
      cases hactive
    · obtain ⟨hi, -⟩ := List.getElem?_eq_some_iff.mp hb
      simpa [Session.opened, List.getElem?_append_left hi] using hb

theorem kept_forceClose {amb : Ambient E} : Kept G u (forceClose amb u).2 :=
  ⟨stable_forceClose u, ok_forceClose⟩

theorem kept_withAppender {context : Context} {ended : Ended E Unit} {closing cleaning : Ambient E}
    (hm : u.app.failure.isSome → u.poisoned.isSome) :
    Kept G u (withAppender context ended.callback closing cleaning u).2 := by
  refine ⟨(withAppender_spec _ _ _ _ (fun s => Grows.refl _) hm).1, fun hu => ?_⟩
  -- the callback, which is that of the caller, and then the close
  have hwork : Triple (fun s : Handled (St F × Option Failure) => s.inner.1.Ok G)
      (appenderWork (E := E) context ended.callback closing) fun _ t => t.inner.1.Ok G := by
    refine Triple.bind (Q := fun _ t => t.inner.1.Ok G) (fun s hs => hs) (fun _ _ h => h)
      fun r => ?_
    cases r with
    | error e => exact fun s hs => ok_tx hs
    | ok x =>
      refine Triple.bind (Q := fun _ t => t.inner.1.Ok G) (fun s hs => ok_closeAppender hs)
        (fun _ _ h => h) fun r => Triple.pure fun s hs => hs
  -- the cleanup of the scope closes what is open
  have hcleanup : Triple (fun s : Handled (St F × Option Failure) => s.inner.1.Ok G)
      (inScope (forceClose cleaning)) fun _ t => t.inner.1.Ok G := fun s hs => ok_forceClose hs
  have hscope := triple_scope (P := fun s => s.1.Ok G) (I := fun s => s.1.Ok G)
    (l := .cause context) hwork hcleanup ⟨false, (u, none)⟩ hu
  unfold withAppender
  match hrun : scope (.cause context) (appenderWork context ended.callback closing)
    (inScope (forceClose cleaning)) ⟨false, (u, none)⟩ with
  | (.ok (.ok _), v) =>
    rw [hrun] at hscope
    exact hscope
  | (.ok (.error _), v) =>
    rw [hrun] at hscope
    exact ok_tx hscope
  | (.error _, v) =>
    rw [hrun] at hscope
    exact ok_tx hscope

/-- **The end of a transaction** closes what is left, which poisons. -/
theorem drain_spec (cleaning : ℕ → Ambient E) (k : ℕ) {apps : List (App F)} {poisoned : Option Cause}
    (h : ∀ a ∈ apps, Sound G a poisoned) :
    (∀ b ∈ (drain cleaning k apps poisoned).2.1,
      Sound G b (drain cleaning k apps poisoned).2.2 ∧ b.childOpen = false) ∧
    (poisoned.isSome → (drain cleaning k apps poisoned).2.2.isSome) ∧
    ((∃ a ∈ apps, a.childOpen = true) → (drain cleaning k apps poisoned).2.2.isSome) ∧
    ∀ (i : ℕ) (a : App F), apps[i]? = some a →
      ∃ b : App F, (drain cleaning k apps poisoned).2.1[i]? = some b ∧
      (∀ e, a.failure = some e → b.failure = some e) ∧ (a.childOpen = false → b.childOpen = false) := by
  induction apps generalizing k poisoned with
  | nil => exact ⟨nofun, id, by simp, by simp⟩
  | cons a apps ih =>
    have hk : Kept G ⟨a, false, poisoned⟩ (forceClose (cleaning k) ⟨a, false, poisoned⟩).2 :=
      kept_forceClose
    have ha := (h a List.mem_cons_self).kept hk
    -- each is closed by force; the poison that this may leave stays over the others
    obtain ⟨hall, hmono, hopen, hsticky⟩ := ih (k + 1)
      fun b hb => (h b (List.mem_cons_of_mem a hb)).mono hk.grows.poisoned
    rw [drain]
    refine ⟨fun b hb => ?_, fun hp => hmono (hk.grows.poisoned hp), fun hopen' => ?_, fun i b hb => ?_⟩
    · obtain rfl | hb := List.mem_cons.mp hb
      · exact ⟨ha.mono hmono, forceClose_closed⟩
      · exact hall b hb
    · obtain ⟨b, hb, hbopen⟩ := hopen'
      obtain rfl | hb := List.mem_cons.mp hb
      · exact hmono (forceClose_open hbopen)
      · exact hopen ⟨b, hb, hbopen⟩
    · cases i with
      | zero =>
        obtain rfl : a = b := Option.some.inj hb
        exact ⟨_, rfl, hk.grows.failure, hk.grows.closed⟩
      | succ i => exact hsticky i b hb

/-- When COMMIT is sent. -/
theorem settle_committed {ended : Ended E Unit} {cleaning : ℕ → Ambient E} {checkpoint : Result} :
    (s.settle ended cleaning checkpoint).committed = true ↔ s.committed = true ∨
      (ended.result = .ok (.ok ()) ∧ ended.denied = false ∧
        (drain cleaning 0 s.apps s.poisoned).1 = .ok () ∧
        (drain cleaning 0 s.apps s.poisoned).2.2 = none ∧ checkpoint = .ok ()) := by
  unfold Session.settle
  dsimp only
  rw [Bool.or_eq_true]
  refine or_congr_right ?_
  split
  · simp [*]
  · rename_i hne
    simp only [Bool.false_eq_true, false_iff]
    exact fun ⟨h1, h2, h3, h4, h5⟩ => hne h1 h2 h3 h4 h5

theorem advance_settle (hs : s.Inv G) (ended : Ended E Unit) (cleaning : ℕ → Ambient E)
    (checkpoint : Result) : s.Advance G (s.settle ended cleaning checkpoint) := by
  obtain ⟨hall, hmono, -, hsticky⟩ := drain_spec cleaning 0 hs.app
  refine ⟨⟨fun b hb => (hall b hb).1, fun _ => ⟨rfl, fun b hb => (hall b hb).2⟩⟩, fun hp => ?_, hsticky⟩
  refine ⟨hmono hp, ?_⟩
  rw [Bool.eq_iff_iff, settle_committed]
  refine ⟨fun h => h.resolve_right fun h' => ?_, .inl⟩
  have := hmono hp
  rw [h'.2.2.2.1] at this
  cases this

/-- **Every step** keeps the invariant, a poison and a first failure. -/
theorem advance (hs : s.Inv G) {event : Event F E} {t : Session F}
    (h : step G s event = some t) : s.Advance G t := by
  cases event with
  | openTyped o t =>
    cases h
    exact advance_openTyped hs o t
  -- an operation, or the end of its scope, changes the one appender
  | request i r =>
    obtain ⟨a, ha, rfl⟩ := Option.map_eq_some_iff.mp h
    exact advance_put hs ha (r.kept _)
  | finish i context ended closing cleaning =>
    obtain ⟨a, ha, h⟩ := Option.bind_eq_some_iff.mp h
    split at h
    · cases h
      exact advance_put hs ha (kept_withAppender (hs.app a (List.mem_of_getElem? ha)).marked)
    · cases h
  -- a failure elsewhere poisons the transaction, and no appender
  | fail e =>
    cases h
    exact ⟨⟨fun a ha => (hs.app a ha).mono fun h => by simp, hs.finished⟩, fun _ => ⟨by simp, rfl⟩,
      fun i a ha => ⟨a, ha, fun _ => id, id⟩⟩
  | settle ended cleaning checkpoint =>
    rw [step] at h
    split at h
    · cases h
      exact advance_settle hs ended cleaning checkpoint
    · cases h

theorem inv_of_reachable (h : (session G F E).Reachable .free s) : s.Inv G := by
  refine h.induction (I := Session.Inv G) (fun s hs => ?_) fun s event t hs _ ht => ?_
  · obtain rfl : s = ⟨true, none, false, []⟩ := hs
    exact ⟨by simp, by simp⟩
  · exact (advance hs ht).inv

end Invariant

/-! ### After a failure -/

section Failure

variable {G : Engine} {s t u : Session F} {a : App F} {event : Event F E} {r : Request F E} {i : ℕ}

theorem active_of_admission {amb : Ambient E} {s : St F} (h : admission amb s = .ok ()) :
    s.active = true := by
  cases hactive : s.active with
  | true => rfl
  | false =>
    rw [admission, admitOperation, hactive] at h
    simp at h

theorem Session.Inv.not_committed (hs : s.Inv G) (h : s.active = true) : s.committed = false := by
  cases hc : s.committed with
  | false => rfl
  | true => exact absurd (h.symm.trans (hs.finished hc).1) (by decide)

theorem Request.run_stuck (hs : (s.at a).Ok G) (hm : a.failure.isSome → s.poisoned.isSome)
    (hr : r.rejection a = none) (ha : admission r.ambient (s.at a) = .ok ())
    (hne : (r.run G (s.at a)).1 ≠ .ok (.ok ())) :
    Stuck (r.run G (s.at a)).1 (r.run G (s.at a)).2 := by
  cases r with
  | append amb fields rows =>
    refine stuck_appendRows hs hm ?_ ha hne
    rw [Request.rejection] at hr
    split at hr
    · cases hr
    · cases hr
    · rename_i cells hcells
      exact ⟨cells, hcells⟩
  | appendColumns amb fields bulk =>
    refine stuck_appendBulk hm ?_ ha hne
    rw [Request.rejection] at hr
    split at hr
    · cases hr
    · assumption
  | flush amb => exact stuck_operation hm ha hne

/-- **An operation when every one gets one answer** is rejected, or gets it. -/
theorem Request.run_answer {s : St F} (hs : s.Ok G) {x : Except (Exn E) Result} (r : Request F E)
    (hx : Answers r.ambient s x) : (r.run G s).1 = (r.rejection s.app).getD x := by
  cases r with
  | append amb fields rows =>
    refine (appendRows_answer hs hx rows).trans ?_
    rw [Request.rejection]
    cases encodeRows fields rows with
    | ok cells => rfl
    | error halt => cases halt <;> rfl
  | appendColumns amb fields bulk =>
    refine (appendBulk_answer hx bulk).trans ?_
    rw [Request.rejection]
    cases checkColumnsBulk s.app fields bulk 0 bulk.length <;> rfl
  | flush amb => exact hx s.app.native _

/-- **A step in which something fails** poisons a transaction that has not committed. -/
theorem poisoned_of_fails (hs : s.Inv G) (hf : Fails G s event) (h : step G s event = some t) :
    t.poisoned.isSome ∧ t.committed = false := by
  cases event with
  | openTyped o table =>
    obtain ⟨hactive, hbegun, hne⟩ := hf
    cases h
    obtain ⟨tx, he, -, -, hp⟩ | ⟨-, u, he, -, hp⟩ :=
      openTyped_spec (G := G) o table ⟨s.active, s.poisoned⟩
    · rw [he]
      exact ⟨hp hactive hbegun hne, hs.not_committed hactive⟩
    · rw [he]
      exact ⟨hp hne, hs.not_committed hactive⟩
  | request i r =>
    obtain ⟨a, ha, hr, hadmit, hne⟩ := hf
    rw [step, ha] at h
    cases h
    have hsound := hs.app a (List.mem_of_getElem? ha)
    exact ⟨(Request.run_stuck (hsound.ok _ _) hsound.marked hr hadmit hne).poisoned,
      hs.not_committed (active_of_admission hadmit)⟩
  | finish i context ended closing cleaning =>
    obtain ⟨a, ha, hne⟩ := hf
    rw [step, ha] at h
    dsimp only [Option.bind] at h
    split at h
    -- the scope ended with an error, or what it closed did
    · rename_i hopen
      cases h
      obtain ⟨-, -, ⟨x, hx⟩ | hp⟩ := withAppender_spec context ended.callback closing cleaning
        (fun s => Grows.refl _) (s := s.at a) (hs.app a (List.mem_of_getElem? ha)).marked
      · obtain ⟨hresult, hdenied⟩ := withAppender_ok hx
        rw [hresult, hdenied, hx] at hne
        simp at hne
      · refine ⟨hp, ?_⟩
        cases hc : s.committed with
        | false => exact hc
        | true =>
          rw [(hs.finished hc).2 a (List.mem_of_getElem? ha)] at hopen
          cases hopen
    · cases h
  | fail e =>
    cases h
    exact ⟨by simp, hs.not_committed hf⟩
  | settle ended cleaning checkpoint =>
    rw [step] at h
    split at h
    · rename_i hactive
      cases h
      -- appenders left open are closed, and poison the transaction before COMMIT
      obtain ⟨-, -, hopen, -⟩ := drain_spec cleaning 0 hs.app
      refine ⟨hopen hf, ?_⟩
      rw [Bool.eq_false_iff, ne_eq, settle_committed, hs.not_committed hactive]
      rintro (h | ⟨-, -, -, hp, -⟩)
      · cases h
      · have := hopen hf
        rw [hp] at this
        cases this
    · cases h

theorem not_committed_of_run (hs : s.Inv G) (hp : s.poisoned.isSome) (hc : s.committed = false)
    {events : List (Event F E)} (h : (session G F E).Run .free s events t) : t.committed = false := by
  refine (h.induction (I := fun s => s.Inv G ∧ s.poisoned.isSome ∧ s.committed = false) ?_
    ⟨hs, hp, hc⟩).2.2
  intro s event t ⟨hs, hp, hc⟩ _ ht
  have hstep := advance hs ht
  obtain ⟨hp', hc'⟩ := hstep.poisoned hp
  exact ⟨hstep.inv, hp', hc'.trans hc⟩

/-- **A run** keeps an appender's first failure, and keeps it closed. -/
theorem kept_of_run (hs : s.Inv G) (ha : s.apps[i]? = some a) {events : List (Event F E)}
    (h : (session G F E).Run .free s events t) :
    t.Inv G ∧ ∃ b, t.apps[i]? = some b ∧
      (∀ e, a.failure = some e → b.failure = some e) ∧ (a.childOpen = false → b.childOpen = false) := by
  refine h.induction (I := fun s => s.Inv G ∧ ∃ b, s.apps[i]? = some b ∧
    (∀ e, a.failure = some e → b.failure = some e) ∧ (a.childOpen = false → b.childOpen = false)) ?_
    ⟨hs, a, ha, fun _ => id, id⟩
  intro s event t ⟨hs, b, hb, hf, hc⟩ _ ht
  have hstep := advance hs ht
  obtain ⟨c, hc', hf', hclosed⟩ := hstep.sticky i b hb
  exact ⟨hstep.inv, c, hc', fun e he => hf' e (hf e he), fun h => hclosed (hc h)⟩

/-- **The end of a scope** leaves the appender closed. -/
theorem closed_of_finish (hs : s.Inv G) {context : Context} {ended : Ended E Unit}
    {closing cleaning : Ambient E} (h : step G s (.finish i context ended closing cleaning) = some t) :
    ∃ a, t.apps[i]? = some a ∧ a.childOpen = false := by
  obtain ⟨a, ha, h⟩ := Option.bind_eq_some_iff.mp h
  split at h
  · cases h
    obtain ⟨hi, -⟩ := List.getElem?_eq_some_iff.mp ha
    refine ⟨(withAppender context ended.callback closing cleaning (s.at a)).2.app,
      by simp [Session.put, hi], ?_⟩
    exact (withAppender_spec context ended.callback closing cleaning (fun s => Grows.refl _)
      (s := s.at a) (hs.app a (List.mem_of_getElem? ha)).marked).2.1
  · cases h

end Failure

/-! ### After a rejection -/

/-- A transaction with one open appender, which has not failed. -/
structure Healthy (s : Session F) (i : ℕ) (a : App F) : Prop where
  active : s.active = true
  poisoned : s.poisoned = none
  committed : s.committed = false
  here : s.apps[i]? = some a
  childOpen : a.childOpen = true
  failure : a.failure = none
  status : a.native.status = none
  others : ∀ (j : ℕ) (b : App F), s.apps[j]? = some b → j ≠ i → b.childOpen = false

section Rejection

variable {G : Engine} {s : Session F} {a b : App F} {r : Request F E} {i : ℕ}

/-- **A rejected operation** changes nothing that lasts. -/
theorem Request.lasting_rejected {s : St F} (hs : s.Ok G) (hg : r.Granted G)
    {x : Except (Exn E) Result} (h : r.rejection s.app = some x) :
    (r.run G s).1 = x ∧ (r.run G s).2.lasting = s.lasting := by
  cases r with
  | append amb fields rows =>
    rw [Request.rejection] at h
    split at h
    -- a value that its codec rejects: the rows staged before it are dropped
    · rename_i index reason hcells
      cases h
      refine ⟨?_, Appender.lasting_rejected hs hg hcells⟩
      obtain ⟨q, hrun, -⟩ := stageRows_eq s.app.mayBeNull fields rows
        (hs.native.stageBegin (amb.grant 0) rows.length) 0 none
      rw [hcells] at hrun
      rw [Request.run, appendRows, hrun]
      rfl
    -- a codec that raises
    · rename_i e hcells
      cases h
      refine ⟨?_, Appender.lasting_rejected hs hg hcells⟩
      obtain ⟨q, hrun, -⟩ := stageRows_eq s.app.mayBeNull fields rows
        (hs.native.stageBegin (amb.grant 0) rows.length) 0 none
      rw [hcells] at hrun
      rw [Request.run, appendRows, hrun]
      rfl
    · cases h
  | appendColumns amb fields bulk =>
    rw [Request.rejection] at h
    split at h
    -- columns are checked before any of them is staged
    · rename_i c hcheck
      cases h
      rw [Request.run, appendBulk_rejected hcheck]
      exact ⟨rfl, rfl⟩
    · cases h
  | flush amb => cases h

theorem Healthy.put (h : Healthy s i a) {u : St F} (hactive : u.active = true)
    (hpoisoned : u.poisoned = none) (hopen : u.app.childOpen = true) (hfail : u.app.failure = none)
    (hstatus : u.app.native.status = none) : Healthy (s.put i u) i u.app where
  active := hactive
  poisoned := hpoisoned
  committed := h.committed
  here := by
    obtain ⟨hi, -⟩ := List.getElem?_eq_some_iff.mp h.here
    simp [Session.put, hi]
  childOpen := hopen
  failure := hfail
  status := hstatus
  others j b hb hj :=
    h.others j b (by simpa [Session.put, List.getElem?_set_ne (Ne.symm hj)] using hb) hj

/-- What lasts of an appender that has not failed. -/
theorem Healthy.of_lasting (h : Healthy s i a) {u : St F} (hu : u.lasting = (s.at a).lasting) :
    Healthy (s.put i u) i u.app :=
  h.put ((congrArg St.active hu).trans h.active) ((congrArg St.poisoned hu).trans h.poisoned)
    ((congrArg (fun u : St F => u.app.childOpen) hu).trans h.childOpen)
    ((congrArg (fun u : St F => u.app.failure) hu).trans h.failure)
    ((congrArg (fun u : St F => u.app.native.status) hu).trans h.status)

/-- **Further rows** are accepted. -/
theorem Healthy.append (hs : s.Inv G) (h : Healthy s i a) {amb : Ambient E} {ts : List Ty}
    {fields : Fields F E ts} (ht : a.types = fields.ids) {rows : List (Args F ts)}
    {cells : List (List (Option (Datum F)))} (hcalm : Calm G amb rows.length (s.at a))
    (hcells : encodeRows fields rows = .ok cells) (hnull : firstNull a.mayBeNull cells 0 = none)
    (hinvalid : firstInvalid G cells = none) :
    ((Request.append amb fields rows).run G (s.at a)).1 = .ok (.ok ()) ∧
      ∃ t b, step G s (.request i (.append amb fields rows)) = some t ∧ Healthy t i b ∧
        b.native.received = a.native.received ++ G.batches cells := by
  have hok : (s.at a).Ok G := (hs.app a (List.mem_of_getElem? h.here)).ok s.active s.poisoned
  obtain ⟨hresult, hlasting, -⟩ := appendRows_eq amb hok ht rows
  have happended : (appended G amb fields rows (s.at a)).1 = .ok (.ok ()) :=
    appended_calm hcalm h.failure h.status hcells hnull hinvalid
  obtain ⟨cells', hcells', hend⟩ := appended_ok happended
  rw [hcells] at hcells'
  cases hcells'
  refine ⟨hresult.trans happended, s.put i (appendRows G amb fields rows (s.at a)).2,
    (appendRows G amb fields rows (s.at a)).2.app, by rw [step, h.here]; rfl, ?_⟩
  rw [hend] at hlasting
  refine ⟨h.put ((congrArg St.active hlasting).trans h.active)
    ((congrArg St.poisoned hlasting).trans h.poisoned)
    ((congrArg (fun u : St F => u.app.childOpen) hlasting).trans h.childOpen)
    ((congrArg (fun u : St F => u.app.failure) hlasting).trans h.failure)
    ((congrArg (fun u : St F => u.app.native.status) hlasting).trans h.status), ?_⟩
  exact congrArg (fun u : St F => u.app.native.received) hlasting

theorem closeAppender_calmly {s : St F} (hactive : s.active = true) (hopen : s.app.childOpen = true)
    (hfail : s.app.failure = none) (hstatus : s.app.native.status = none)
    (hclosed : s.app.native.closed = false) :
    closeAppender (E := E) calmly s = (.ok (.ok ()), unregister (s.onNative Owner.close)) := by
  have hadmit : admitOperation (E := E) calmly s = .ok () := by
    simp [admitOperation, hopen, hactive, calmly]
  have hflush : lastFlush (E := E) calmly s = (.ok (.ok ()), s) := by
    have hnative : flushNative (E := E) calmly s = (.ok (.ok ()), s) := by
      unfold flushNative
      rw [Comp.bind_ok (a := ()) (t := s) (by simp [call, calmly, Owner.userCall, St.onNative])]
      simp [status, Owner.result, hstatus]
    unfold lastFlush
    rw [hfail]
    exact Comp.bind_ok hnative
  have hdestroy : destroy (E := E) calmly s = (.ok (.ok ()), s.onNative Owner.close) := by
    simp [destroy, calmly, hclosed, Owner.result, St.onNative, Owner.close, Owner.clearInput, hstatus]
  unfold closeAppender
  rw [if_neg (by simp [hopen]), hadmit]
  simp only [show (calmly (E := E)).before 0 = .ok () from rfl, orPoison, Comp.ret, hflush, hdestroy]
  rw [show (s.onNative Owner.close).app.failure = none from hfail]
  rfl

/-- A scope whose callback returns a value closes the appender. -/
theorem withAppender_calmly (context : Context) {s u : St F}
    (hclose : closeAppender (E := E) calmly s = (.ok (.ok ()), u)) (hu : u.app.childOpen = false) :
    withAppender (E := E) context (Ended.callback ⟨.ok (.ok ()), false⟩) calmly calmly s =
      (.ok (.ok ()), u) := by
  have hwork : appenderWork (E := E) context (Ended.callback ⟨.ok (.ok ()), false⟩) calmly
      ⟨false, (s, none)⟩ = (.ok (.ok (.ok ())), ⟨false, (u, none)⟩) := by
    unfold appenderWork
    have hcallback : (Ended.callback ⟨.ok (.ok ()), false⟩ :
        Operation (St F × Option Failure) E (Except Failure Unit)) ⟨false, (s, none)⟩ =
          (.ok (.ok ()), ⟨false, (s, none)⟩) := rfl
    rw [Comp.bind_ok hcallback]
    dsimp only
    rw [Comp.bind_ok (a := .ok ()) (t := ⟨false, (u, none)⟩) (by rw [inScope, hclose])]
    rfl
  have hguarded : withoutEscapingEffects (appenderWork (E := E) context
      (Ended.callback ⟨.ok (.ok ()), false⟩) calmly) ⟨false, (s, none)⟩ =
        (.ok (.ok (.ok (.ok ()))), ⟨false, (u, none)⟩) := by
    rw [withoutEscapingEffects, hwork]
    rfl
  have hcleanup : completeCleanup (inScope (forceClose (F := F) (E := E) calmly))
      ⟨false, (u, none)⟩ = (.ok (), ⟨false, (u, none)⟩) := by
    unfold completeCleanup Comp.catching inScope forceClose
    simp [hu]
  rw [withAppender, scope_of_ok hguarded hcleanup]

theorem drain_closed {cleaning : ℕ → Ambient E} {k : ℕ} {apps : List (App F)} {p : Option Cause}
    (h : ∀ a ∈ apps, a.childOpen = false) : drain cleaning k apps p = (.ok (), apps, p) := by
  induction apps generalizing k with
  | nil => rfl
  | cons a apps ih =>
    have hclosed : forceClose (cleaning k) ⟨a, false, p⟩ = (.ok (), ⟨a, false, p⟩) := by
      rw [forceClose, h a List.mem_cons_self]
      rfl
    rw [drain, hclosed]
    dsimp only
    rw [ih fun b hb => h b (List.mem_cons_of_mem a hb)]

/-- **The transaction** can still be committed. -/
theorem Healthy.commits (hs : s.Inv G) (h : Healthy s i a) (context : Context) : ∃ t u : Session F,
    step G s (.finish i context ⟨.ok (.ok ()), false⟩ (calmly (E := E)) calmly) = some t ∧
    step G t (.settle ⟨.ok (.ok ()), false⟩ (fun _ => calmly (E := E)) (.ok ())) = some u ∧
      u.committed = true := by
  have hclosed := ((hs.app a (List.mem_of_getElem? h.here)).same h.failure h.childOpen).1
  -- the scope of the appender ends well, and closes it
  have hclose := closeAppender_calmly (E := E) (s := s.at a) h.active h.childOpen h.failure h.status
    hclosed
  have hscope := withAppender_calmly (E := E) context hclose rfl
  refine ⟨s.put i (unregister ((s.at a).onNative Owner.close)),
    (s.put i (unregister ((s.at a).onNative Owner.close))).settle (E := E)
      ⟨.ok (.ok ()), false⟩ (fun _ => calmly) (.ok ()), ?_, ?_, ?_⟩
  rotate_left
  · exact if_pos (c := s.active = true) h.active
  · rw [settle_committed]
    -- no appender is left open at the end of the transaction
    have hall : ∀ b ∈ (s.put i (unregister ((s.at a).onNative Owner.close))).apps,
        b.childOpen = false := by
      intro b hb
      obtain ⟨j, hj⟩ := List.mem_iff_getElem?.mp hb
      by_cases hij : i = j
      · subst hij
        obtain ⟨hi, -⟩ := List.getElem?_eq_some_iff.mp h.here
        have hj : some (unregister ((s.at a).onNative Owner.close)).app = some b := by
          simpa [Session.put, hi] using hj
        cases hj
        rfl
      · exact h.others j b (by simpa [Session.put, List.getElem?_set_ne hij] using hj) (Ne.symm hij)
    rw [drain_closed hall]
    exact .inr ⟨rfl, rfl, rfl, h.poisoned, rfl⟩
  · rw [step, h.here, Option.bind_some, if_pos h.childOpen, hscope]

end Rejection

/-! ### The transaction as a whole -/

/-- **Failures cannot commit.** After a step in which something fails, an appender left open at the
end included, no run commits. If an operation on an appender fails, every later operation on it is
rejected, refused or answered with the first failure, which is the error that was reported; once its
scope has ended, every later operation on it is rejected or refused. An operation that is rejected by
a codec or by the checks of columns, without an allocation failure, changes nothing that lasts, so
that further rows can be appended and the transaction can commit. -/
theorem failures_cannot_commit (G : Engine) {s : Session F}
    (hs : (session G F E).Reachable .free s) :
    (∀ (event : Event F E) (t : Session F), Fails G s event → step G s event = some t →
      ∀ (events : List (Event F E)) (u : Session F), (session G F E).Run .free t events u →
        u.committed = false) ∧
    (∀ (i : ℕ) (r : Request F E) (a : App F) (t : Session F), s.apps[i]? = some a →
      Fails G s (.request i r) → step G s (.request i r) = some t →
      ∃ e, (∀ e', (r.run G (s.at a)).1 = .ok (.error e') → e' = e) ∧
        ∀ (events : List (Event F E)) (u : Session F), (session G F E).Run .free t events u →
          ∃ b, u.apps[i]? = some b ∧ b.failure = some e ∧ ∀ r' : Request F E,
            (r'.run G (u.at b)).1 = (r'.rejection b).getD (refusal r'.ambient e (u.at b))) ∧
    (∀ (i : ℕ) (context : Context) (ended : Ended E Unit) (closing cleaning : Ambient E)
      (t : Session F), step G s (.finish i context ended closing cleaning) = some t →
      ∀ (events : List (Event F E)) (u : Session F), (session G F E).Run .free t events u →
        ∃ b, u.apps[i]? = some b ∧ ∀ r' : Request F E,
          (r'.run G (u.at b)).1 = (r'.rejection b).getD (.ok (.error .closed))) ∧
    (∀ (i : ℕ) (r : Request F E) (a : App F) (x : Except (Exn E) Result), s.apps[i]? = some a →
      r.rejection a = some x → r.Granted G →
      (r.run G (s.at a)).1 = x ∧ ∃ t b, step G s (.request i r) = some t ∧
        t.apps[i]? = some b ∧ (t.at b).lasting = (s.at a).lasting ∧
        t.poisoned = s.poisoned ∧ t.committed = s.committed ∧
        (Healthy s i a → Healthy t i b)) ∧
    (∀ (i : ℕ) (a : App F), Healthy s i a →
      (∀ (amb : Ambient E) (ts : List Ty) (fields : Fields F E ts) (rows : List (Args F ts))
          (cells : List (List (Option (Datum F)))), a.types = fields.ids →
        Calm G amb rows.length (s.at a) → encodeRows fields rows = .ok cells →
        firstNull a.mayBeNull cells 0 = none → firstInvalid G cells = none →
        ((Request.append amb fields rows).run G (s.at a)).1 = .ok (.ok ()) ∧
          ∃ t b, step G s (.request i (.append amb fields rows)) = some t ∧ Healthy t i b ∧
            b.native.received = a.native.received ++ G.batches cells) ∧
      ∀ context : Context, ∃ t u : Session F,
        step G s (.finish i context ⟨.ok (.ok ()), false⟩ (calmly (E := E)) calmly) = some t ∧
        step G t (.settle ⟨.ok (.ok ()), false⟩ (fun _ => calmly (E := E)) (.ok ())) = some u ∧
          u.committed = true) := by
  have hinv := inv_of_reachable hs
  refine ⟨fun event t hf ht events u hu => ?_, fun i r a t ha hf ht => ?_,
    fun i context ended closing cleaning t ht events u hu => ?_,
    fun i r a x ha hx hg => ?_, fun i a h => ⟨fun amb ts fields rows cells hty hcalm hcells hnull
      hinvalid => h.append hinv hty hcalm hcells hnull hinvalid, h.commits hinv⟩⟩
  · -- the poison that the failure leaves is never taken back
    obtain ⟨hp, hc⟩ := poisoned_of_fails hinv hf ht
    exact not_committed_of_run (advance hinv ht).inv hp hc hu
  · obtain ⟨a', ha', hr, hadmit, hne⟩ := hf
    obtain rfl : a = a' := Option.some.inj (ha.symm.trans ha')
    have hsound := hinv.app a (List.mem_of_getElem? ha)
    obtain ⟨-, e, he, hreport⟩ :=
      Request.run_stuck (hsound.ok s.active s.poisoned) hsound.marked hr hadmit hne
    refine ⟨e, hreport, fun events u hu => ?_⟩
    -- the failure is recorded in the appender itself, which keeps its first one
    have hstep := (advance hinv ht).inv
    rw [step, ha] at ht
    cases ht
    obtain ⟨hi, -⟩ := List.getElem?_eq_some_iff.mp ha
    obtain ⟨hinv', b, hb, hfail, -⟩ := kept_of_run hstep (i := i) (a := (r.run G (s.at a)).2.app)
      (by simp [Session.put, hi]) hu
    have hfb := hfail e he
    exact ⟨b, hb, hfb, fun r' => Request.run_answer
      ((hinv'.app b (List.mem_of_getElem? hb)).ok u.active u.poisoned) r' (answers_refusal hfb)⟩
  · obtain ⟨a, ha, hclosed⟩ := closed_of_finish hinv ht
    obtain ⟨hinv', b, hb, -, hkept⟩ := kept_of_run (advance hinv ht).inv ha hu
    exact ⟨b, hb, fun r' => Request.run_answer
      ((hinv'.app b (List.mem_of_getElem? hb)).ok u.active u.poisoned) r'
      (answers_closed (hkept hclosed))⟩
  · have hsound := hinv.app a (List.mem_of_getElem? ha)
    obtain ⟨hresult, hlasting⟩ := Request.lasting_rejected (s := s.at a)
      (hsound.ok s.active s.poisoned) hg hx
    obtain ⟨hi, -⟩ := List.getElem?_eq_some_iff.mp ha
    refine ⟨hresult, s.put i (r.run G (s.at a)).2, (r.run G (s.at a)).2.app, by rw [step, ha]; rfl,
      by simp [Session.put, hi], hlasting, congrArg St.poisoned hlasting, rfl,
      fun h => h.of_lasting hlasting⟩

/-- The opening of an appender on the table of people, whose names may not be NULL. -/
def openingPeople : Opening Empty := opening people [("id", false), ("name", false)]

def peopleSession : Session bitFloats :=
  Session.opened ⟨true, none, false, []⟩ (openTyped openingPeople people ⟨true, none⟩).2

/-- The engine has no room. -/
def full : Ambient Empty := { welcome with answer := fun _ _ => .failed "No space left on device" }

def firstPerson : Request bitFloats Empty := .append full people.fields [person 1 none]

/-- Columns of two rows and of one. -/
def unevenColumns : Bulk bitFloats people.ts :=
  .cons (.int64 .int64 ofScalar_int64 [1, 2])
    (.cons (.nullable (.strings .string ofScalar_string [[97]]) [1]) .nil)

def uneven : Request bitFloats Empty := .appendColumns welcome people.fields unevenColumns

def twoPeople : List (Args bitFloats people.ts) := [person 1 (some [97]), person 2 (some [98])]

theorem healthy_peopleSession : Healthy peopleSession 0 openingPeople.app := by
  refine ⟨rfl, rfl, rfl, rfl, rfl, rfl, rfl, fun j b hb hj => ?_⟩
  obtain ⟨j, rfl⟩ := Nat.exists_eq_succ_of_ne_zero hj
  cases hb

/-- A failed batch, whose error is ignored, is not committed, and the appender keeps answering with
it. A bulk append of uneven columns is rejected, and two people are appended after it and committed. -/
theorem peopleSession_outcomes :
    (∃ t u : Session bitFloats, step pairs peopleSession (.request 0 firstPerson) = some t ∧
      step pairs t (.settle ⟨.ok (.ok ()), false⟩ (fun _ => welcome) (.ok ())) = some u ∧
      u.committed = false ∧ ∃ b, t.apps[0]? = some b ∧
        ((Request.flush welcome).run pairs (t.at b)).1 =
          .ok (.error (.native "No space left on device"))) ∧
    ∃ t u v w : Session bitFloats, step pairs peopleSession (.request 0 uneven) = some t ∧
      step pairs t (.request 0 (.append welcome people.fields twoPeople)) = some u ∧
      step pairs u (.finish (E := Empty) 0 people.context ⟨.ok (.ok ()), false⟩ calmly calmly) =
        some v ∧
      step pairs v (.settle (E := Empty) ⟨.ok (.ok ()), false⟩ (fun _ => calmly) (.ok ())) = some w ∧
      w.committed = true := by
  have hreach : (session pairs bitFloats Empty).Reachable .free peopleSession :=
    (System.Reachable.refl (s := ⟨true, none, false, []⟩) rfl).tail
      (a := .openTyped openingPeople people) trivial rfl
  obtain ⟨hfails, hsticky, -, hrejected, -⟩ := failures_cannot_commit pairs hreach
  constructor
  -- the first batch fails in the engine
  · have hrun : (firstPerson.run pairs (peopleSession.at openingPeople.app)).1 =
        .ok (.error (.native "No space left on device")) := rfl
    have hf : Fails pairs peopleSession (.request 0 firstPerson) :=
      ⟨_, rfl, rfl, rfl, by rw [hrun]; simp⟩
    refine ⟨_, _, rfl, rfl, hfails (.request 0 firstPerson) _ hf rfl
      [.settle ⟨.ok (.ok ()), false⟩ (fun _ => welcome) (.ok ())] _ ⟨trivial, _, rfl, rfl⟩, ?_⟩
    obtain ⟨e, hfirst, hlater⟩ := hsticky 0 firstPerson _ _ rfl hf rfl
    obtain rfl := hfirst _ hrun
    obtain ⟨b, hb, -, hanswer⟩ := hlater [] _ rfl
    obtain rfl := Option.some.inj hb
    exact ⟨_, hb, hanswer (.flush welcome)⟩
  -- the uneven columns are rejected, and leave a healthy appender
  · have ha := healthy_peopleSession
    obtain ⟨-, t, b, ht, hb, hlasting, -, -, hhealthy⟩ := hrejected 0 uneven _ _ ha.here rfl trivial
    have hb := hhealthy ha
    have hstep : (session pairs bitFloats Empty).step peopleSession (.request 0 uneven) = some t := ht
    have hreach := hreach.tail trivial hstep
    obtain ⟨-, -, -, -, hfurther⟩ := failures_cannot_commit pairs hreach
    -- nothing fails in the batch after them
    have hcalm : Calm pairs welcome twoPeople.length (t.at b) := by
      have hchunks : pairs.chunks twoPeople.length ≤ 16 := by decide
      refine ⟨?_, fun _ => rfl, fun _ => ⟨rfl, rfl, hchunks⟩, fun _ _ => rfl, fun _ => rfl, rfl⟩
      simp [admission, admitOperation, welcome, Session.at, hb.childOpen, hb.active]
    have htypes : b.types = people.fields.ids := congrArg (fun u : St bitFloats => u.app.types) hlasting
    obtain ⟨-, u, c, hu, hc, -⟩ := (hfurther 0 b hb).1 welcome people.ts people.fields twoPeople _
      htypes hcalm rfl rfl rfl
    have hstep : (session pairs bitFloats Empty).step t
      (.request 0 (.append welcome people.fields twoPeople)) = some u := hu
    have hreach := hreach.tail trivial hstep
    obtain ⟨-, -, -, -, hfurther⟩ := failures_cannot_commit pairs hreach
    obtain ⟨v, w, hv, hw, hcommitted⟩ := (hfurther 0 c hc).2 people.context
    exact ⟨t, u, v, w, ht, hu, hv, hw, hcommitted⟩

end DuckdbMl.Appender
