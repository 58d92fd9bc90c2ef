import DuckdbMl.Failure.Scope

/-!
# Transactions around local files

The steps of an export fail, raise or are cancelled as their surroundings decide at that time.
A transaction runs a body between BEGIN and COMMIT and rolls back on every failure; its own steps
touch no local file. The gate of the connection and the lease of the transaction are left out.

## Main definitions

* `Disk`, `World`: the local files with a record of what was done to them, and the time
* `Surroundings`: what the engine, the runtime, the cancellation and the file system answer
* `settle`, `withTransaction`: the bracket of a transaction

## Main results

* `bracket_withTransaction`: a transaction leaves the files as its callback does, returns its value
  or none, and reports its failure
-/

namespace DuckdbMl.Parquet

open Effects

abbrev Result := Except Cause Unit

abbrev Content := List UInt8

/-- What is done to local files: a temporary file is reserved, COPY reports that it has written it,
a publication is admitted at some time, and the destination is linked to the temporary file. -/
inductive Event
  | reserved (temporary : String)
  | copied (temporary : String)
  | admitted (time : ℕ)
  | linked (temporary : String)
  deriving DecidableEq, Repr

/-- The local files, with the record of what was done to them. -/
structure Disk where
  files : String → Option Content
  log : List Event

/-- `begun` tells whether a rollback is owed, and `cut` whether an interruption will strike the
first removal of a temporary file. -/
structure World where
  disk : Disk
  time : ℕ
  begun : Bool
  cut : Bool

abbrev Op (E α : Type) := Operation World E α

/-- What others decide at each time. A new temporary file is none of the existing files, nor the
destination; an interruption is no effect; a COPY that reports success has written the complete
file. -/
structure Surroundings (E : Type) (destination : String) (complete : Content) where
  answer : ℕ → Except (Exn E) Result
  checkpoint : ℕ → Result
  cleanup : ℕ → Except (Exn E) Unit
  latched : ℕ → Bool
  columns : ℕ → Except (Exn E) (Except Cause (List ℕ))
  temporary : ℕ → (String → Option Content) → Except Cause String
  copy : ℕ → Option Content × Except (Exn E) Result
  link : ℕ → Result
  interrupt : ℕ → Except (Exn E) Unit
  fresh : ∀ n files p, temporary n files = .ok p → files p = none ∧ p ≠ destination
  quiet : ∀ n, interrupt n ≠ .error .effectDenied
  copied : ∀ n, (copy n).2 = .ok (.ok ()) → (copy n).1 = some complete

variable {E α β : Type} {destination : String} {complete : Content}

/-! ### Steps -/

/-- A step whose outcome depends on the time, and which touches no file. -/
def ask (f : ℕ → Except (Exn E) α) : Op E α := fun s =>
  (f s.inner.time, { s with inner := { s.inner with time := s.inner.time + 1 } })

/-- `k` after a success. -/
def andOk (c : Op E (Except Cause α)) (k : α → Op E (Except Cause β)) : Op E (Except Cause β) := do
  match ← c with
  | .ok a => k a
  | .error e => return .error e

def setBegun (begun : Bool) : Op E Unit :=
  Comp.modify fun s => { s with inner := { s.inner with begun := begun } }

section Definitions

variable (env : Surroundings E destination complete)

def checkpoint : Op E Result := ask fun n => .ok (env.checkpoint n)

/-- An engine call, with the status it leaves. -/
def engine : Op E Result := ask env.answer

/-- The work of an admitted operation; the admission may be refused. -/
def withAdmission (work : Op E (Except Cause α)) : Op E (Except Cause α) :=
  andOk (engine env) fun _ => andOk (checkpoint env) fun _ => work

/-! ### Transactions -/

def rawControl : Op E Result := Comp.protect .both (fun _ => ask env.cleanup) (engine env)

def rawBegin : Op E Result := do
  setBegun true
  match ← rawControl env with
  | .error .cancelled => do
    setBegun false
    return .error .cancelled
  | .error c => return .error c
  | .ok () => checkpoint env

def rawCommit : Op E Result := andOk (rawControl env) fun _ => do
  setBegun false
  checkpoint env

def rollbackIfBegun : Op E Result := fun s =>
  if s.inner.begun then rawControl env s else (.ok (.ok ()), s)

/-- BEGIN, the body, COMMIT. -/
def inNativeTransaction (body : Op E (Except Cause α)) : Op E (Except Cause α) :=
  andOk (checkpoint env) fun _ => andOk (rawBegin env) fun _ => andOk body fun value =>
    andOk (checkpoint env) fun _ => andOk (rawCommit env) fun _ => return .ok value

/-- The report of a failure and its rollback. -/
def combine (l : Lifting Cause) :
    Cause ⊕ Exn E → Except (Exn E) Result → Except (Exn E) (Except Cause α)
  | .inl primary, .ok (.ok ()) => .ok (.error primary)
  | .inr primary, .ok (.ok ()) => .error primary
  | .inl primary, .ok (.error secondary) => .ok (.error (l.rollbackFailed primary secondary))
  | .inr primary, .ok (.error secondary) => .error (.cleanup ⟨.transaction, secondary⟩ primary)
  | .inl primary, .error secondary => .error (.cleanup (l.flat primary) secondary)
  | .inr primary, .error secondary => .error (.both primary secondary)

/-- Rolls back; a rollback that fails or raises also discards the connection. -/
def recover (l : Lifting Cause) (rollback : Op E Result) (discard : Op E Unit)
    (failure : Cause ⊕ Exn E) : Op E (Except Cause α) := fun s =>
  match rollback s with
  | (.ok (.ok ()), t) => (combine l failure (.ok (.ok ())), t)
  | (r, t) => Comp.protect .both (fun _ => discard) (fun t => (combine l failure r, t)) t

/-- Any failure of the work, or exception of it, rolls back. -/
def settle (l : Lifting Cause) (rollback : Op E Result) (discard : Op E Unit)
    (work : Op E (Except Cause α)) : Op E (Except Cause α) := fun s =>
  match work s with
  | (.ok (.ok a), t) => (.ok (.ok a), t)
  | (.ok (.error e), t) => recover l rollback discard (.inl e) t
  | (.error x, t) => recover l rollback discard (.inr x) t

/-- A cleanup with a result, run again after an interruption. -/
def completed (cleanup : Op E α) : Op E α :=
  Comp.catching cleanup fun
    | .sysBreak => do
      let _ ← cleanup
      Comp.raise .sysBreak
    | e => Comp.raise e

def revokeAndDrain : Op E Unit := ask env.cleanup

def withTransaction (l : Lifting Cause) (f : Op E (Except Cause α)) : Op E (Except Cause α) :=
  andOk (engine env) fun _ =>
    settle l
      (completed do
        revokeAndDrain env
        rollbackIfBegun env)
      (completeCleanup (ask env.cleanup))
      (inNativeTransaction env do
        let result ← withoutEscapingEffects f
        revokeAndDrain env
        match result with
        | .error c => return .error c
        | .ok result => andOk (return result) fun value => andOk (engine env) fun _ =>
          return .ok value)

end Definitions

/-! ### What a computation leaves as it is -/

/-- The computation leaves the part `g` of the state, however it ends. -/
def Keeps {γ : Type} (g : Handled World → γ) (c : Op E α) : Prop :=
  ∀ x, Triple (g · = x) c fun _ s => g s = x

/-- The files, with their record. -/
def disk (s : Handled World) : Disk := s.inner.disk

/-- The part depends on the files and on the handler of effects only. -/
def Steady {γ : Type} (g : Handled World → γ) : Prop :=
  ∀ s t : Handled World, t.denied = s.denied → disk t = disk s → g t = g s

theorem steady_disk : Steady disk := fun _ _ _ h => h

theorem steady_denied : Steady Handled.denied := fun _ _ h _ => h

section Keeps

variable {γ : Type} {g : Handled World → γ}

theorem Keeps.eq {c : Op E α} (h : Keeps g c) (s : Handled World) : g (c s).2 = g s := h _ s rfl

theorem Keeps.of_eq {c : Op E α} (h : ∀ s, g (c s).2 = g s) : Keeps g c :=
  fun _ s hs => (h s).trans hs

theorem Keeps.ask (hg : Steady g) {f : ℕ → Except (Exn E) α} : Keeps g (ask f) :=
  .of_eq fun _ => hg _ _ rfl rfl

theorem Keeps.pure {a : α} : Keeps g (pure a : Op E α) := fun _ _ h => h

theorem Keeps.raise {x : Exn E} : Keeps g (Comp.raise x : Op E α) := fun _ _ h => h

theorem Keeps.setBegun (hg : Steady g) {begun : Bool} : Keeps g (setBegun begun : Op E Unit) :=
  .of_eq fun _ => hg _ _ rfl rfl

theorem Keeps.bind {c : Op E α} {k : α → Op E β} (hc : Keeps g c) (hk : ∀ a, Keeps g (k a)) :
    Keeps g (c >>= k) :=
  fun x => (hc x).bind (fun _ _ h => h) fun a => hk a x

theorem Keeps.andOk {c : Op E (Except Cause α)} {k : α → Op E (Except Cause β)} (hc : Keeps g c)
    (hk : ∀ a, Keeps g (k a)) : Keeps g (andOk c k) :=
  hc.bind fun
    | .ok a => hk a
    | .error _ => .pure

theorem Keeps.protect {both : Exn E → Exn E → Exn E} {cleanup : Option α → Op E Unit}
    {c : Op E α} (hc : Keeps g c) (hcleanup : ∀ r, Keeps g (cleanup r)) :
    Keeps g (Comp.protect both cleanup c) :=
  fun x => (hc x).protect fun r => hcleanup r x

theorem Keeps.catching {c : Op E α} {handle : Exn E → Op E α} (hc : Keeps g c)
    (hh : ∀ e, Keeps g (handle e)) : Keeps g (Comp.catching c handle) :=
  fun x => (hc x).catching (fun _ _ h => h) fun e => hh e x

theorem Keeps.completed {c : Op E α} (hc : Keeps g c) : Keeps g (completed c) :=
  hc.catching fun
    | .sysBreak => hc.bind fun _ => .raise
    | .raised _ | .effectDenied | .both _ _ | .cleanup _ _ => .raise

theorem Keeps.completeCleanup {c : Op E Unit} (hc : Keeps g c) : Keeps g (completeCleanup c) :=
  fun x => triple_completeCleanup (I := (g · = x)) (hc x)

/-- A handler of effects leaves the one around it as it is. -/
theorem keeps_withoutEscapingEffects (work : Op E α) :
    Keeps Handled.denied (withoutEscapingEffects work) := by
  refine .of_eq fun s => ?_
  unfold withoutEscapingEffects
  match work { s with denied := false } with
  | (.ok _, t) => rfl
  | (.error .effectDenied, t) => rfl
  | (.error (.raised x), t) | (.error .sysBreak, t) | (.error (.both x y), t)
  | (.error (.cleanup x y), t) => rfl

theorem keeps_scope_denied {l : Lifting Cause} {work : Op E (Except Cause α)}
    {cleanup : Op E Unit} (hc : Keeps Handled.denied cleanup) :
    Keeps Handled.denied (scope l work cleanup) :=
  .of_eq fun s => by
    rw [scope_snd, hc.completeCleanup.eq, (keeps_withoutEscapingEffects work).eq]

theorem disk_withoutEscapingEffects (work : Op E α) (s : Handled World) :
    disk (withoutEscapingEffects work s).2 = disk (work { s with denied := false }).2 :=
  congrArg World.disk (withoutEscapingEffects_inner work s)

theorem keeps_scope_disk {l : Lifting Cause} {work : Op E (Except Cause α)} {cleanup : Op E Unit}
    (hw : Keeps disk work) (hc : Keeps disk cleanup) : Keeps disk (scope l work cleanup) :=
  .of_eq fun s => by
    rw [scope_snd, hc.completeCleanup.eq, disk_withoutEscapingEffects, hw.eq]
    rfl

variable (env : Surroundings E destination complete) (hg : Steady g)

include hg

theorem keeps_engine : Keeps g (engine env) := .ask hg

theorem keeps_checkpoint : Keeps g (checkpoint env) := .ask hg

theorem keeps_rawControl : Keeps g (rawControl env) := (Keeps.ask hg).protect fun _ => .ask hg

theorem keeps_rawBegin : Keeps g (rawBegin env) :=
  (Keeps.setBegun hg).bind fun _ => (keeps_rawControl env hg).bind fun r => by
    match r with
    | .ok () => exact .ask hg
    | .error c => cases c <;> first | exact .pure | exact (Keeps.setBegun hg).bind fun _ => .pure

theorem keeps_rawCommit : Keeps g (rawCommit env) :=
  (keeps_rawControl env hg).andOk fun _ => (Keeps.setBegun hg).bind fun _ => .ask hg

theorem keeps_rollbackIfBegun : Keeps g (rollbackIfBegun env) := by
  intro x s hs
  unfold rollbackIfBegun
  split
  · exact keeps_rawControl env hg x s hs
  · exact hs

theorem Keeps.withAdmission {work : Op E (Except Cause α)} (h : Keeps g work) :
    Keeps g (withAdmission env work) :=
  (keeps_engine env hg).andOk fun _ => (keeps_checkpoint env hg).andOk fun _ => h

end Keeps

/-! ### The bracket -/

/-- **What a bracket around `f` makes of it**, from the files `d` on: `f` does not run, and there
is no value; or it does, the files are as it leaves them, a value is its value, a failure of it
is reported as `wrap` says, and an exception of it is followed by one. -/
def Bracket (wrap : Cause → Cause → Prop) (f : Op E (Except Cause α)) (d : Disk)
    (r : Except (Exn E) (Except Cause α)) (t : Handled World) : Prop :=
  (disk t = d ∧ ∀ v, r ≠ .ok (.ok v)) ∨
    ∃ s, disk s = d ∧ disk t = disk (f s).2 ∧
      (∀ v, r = .ok (.ok v) → (f s).1 = .ok (.ok v)) ∧
      (∀ c c', (f s).1 = .ok (.error c) → r = .ok (.error c') → wrap c c') ∧
      ∀ x, (f s).1 = .error x → x ≠ .effectDenied → ∃ y, r = .error y

section Bracket

variable {wrap wrap' : Cause → Cause → Prop} {f : Op E (Except Cause α)} {d : Disk}

theorem triple_andOk {P : Handled World → Prop} {c : Op E (Except Cause α)}
    {k : α → Op E (Except Cause β)} {Q : Except (Exn E) (Except Cause α) → Handled World → Prop}
    {R : Except (Exn E) (Except Cause β) → Handled World → Prop} (hc : Triple P c Q)
    (hraise : ∀ x s, Q (.error x) s → R (.error x) s)
    (herror : ∀ e s, Q (.ok (.error e)) s → R (.ok (.error e)) s)
    (hk : ∀ a, Triple (Q (.ok (.ok a))) (k a) R) : Triple P (andOk c k) R :=
  hc.bind hraise fun
    | .ok a => hk a
    | .error e => Triple.pure (herror e)

/-- A first step that leaves the files as they are. -/
theorem triple_steady {R : Except (Exn E) (Except Cause α) → Handled World → Prop}
    {c : Op E (Except Cause β)} {k : β → Op E (Except Cause α)} (hc : Keeps disk c)
    (hfail : ∀ r s, disk s = d → (∀ v, r ≠ .ok (.ok v)) → R r s)
    (hk : ∀ b, Triple (disk · = d) (k b) R) : Triple (disk · = d) (andOk c k) R :=
  triple_andOk (hc d) (fun _ s h => hfail _ s h fun _ hv => by cases hv)
    (fun _ s h => hfail _ s h fun _ hv => by cases hv) hk

/-- Before `f` runs. -/
theorem Bracket.before {c : Op E (Except Cause β)} {k : β → Op E (Except Cause α)}
    (hc : Keeps disk c) (hk : ∀ b, Triple (disk · = d) (k b) (Bracket wrap f d)) :
    Triple (disk · = d) (andOk c k) (Bracket wrap f d) :=
  triple_steady hc (fun _ _ h hr => .inl ⟨h, hr⟩) hk

/-- After `f` has returned a value, a step fails or returns that value. -/
theorem Bracket.after {v : α} {c : Op E (Except Cause β)} {k : β → Op E (Except Cause α)}
    (hc : Keeps disk c)
    (hk : ∀ b, Triple (Bracket wrap f d (.ok (.ok v))) (k b) (Bracket wrap f d)) :
    Triple (Bracket wrap f d (.ok (.ok v))) (andOk c k) (Bracket wrap f d) := by
  -- a later failure changes no file, and is not a value
  have hlater : ∀ {r s t}, (∀ w, r ≠ .ok (.ok w)) → disk t = disk s →
      Bracket wrap f d (.ok (.ok v)) s → Bracket wrap f d r t := by
    rintro r s t hr ht (⟨-, h⟩ | ⟨s', hs', hdisk, hvalue, -⟩)
    · exact absurd rfl (h v)
    · refine .inr ⟨s', hs', ht.trans hdisk, fun w hw => absurd hw (hr w), fun e e' he _ => ?_,
        fun x hx _ => ?_⟩
      · rw [hvalue v rfl] at he
        cases he
      · rw [hvalue v rfl] at hx
        cases hx
  intro s hs
  have hdisk := hc.eq s
  have h := triple_andOk (P := fun u => u = s)
    (Q := fun r t => disk t = disk s ∧ r = (c s).1 ∧ t = (c s).2) (c := c) (k := k)
    (R := Bracket wrap f d) (by rintro u rfl; exact ⟨hdisk, rfl, rfl⟩)
    (fun x t ht => hlater (fun w hw => by cases hw) ht.1 hs)
    (fun e t ht => hlater (fun w hw => by cases hw) ht.1 hs)
    (fun b t ht => hk b t (by
      obtain ⟨s', hs', hd, hv, hw⟩ := hs.resolve_left fun h => absurd rfl (h.2 v)
      exact .inr ⟨s', hs', ht.1.trans hd, hv, hw⟩))
  exact h s rfl

/-- What a callback without effects returns under a handler. -/
def Returned (f : Op E (Except Cause α)) (s : Handled World)
    (r : Except (Exn E) (Except Cause (Except Cause α))) (t : Handled World) : Prop :=
  disk t = disk (f { s with denied := false }).2 ∧
    ∀ x, r = .ok x → match x with
      | .ok result => (f { s with denied := false }).1 = .ok result
      | .error _ => (f { s with denied := false }).1 = .error .effectDenied

theorem returned_of_keeps (hf : Keeps Handled.denied f) (s : Handled World) :
    Returned f s (withoutEscapingEffects f s).1 (withoutEscapingEffects f s).2 := by
  refine ⟨disk_withoutEscapingEffects f s, ?_⟩
  have hdenied : (f { s with denied := false }).2.denied = false := hf.eq _
  unfold withoutEscapingEffects
  split
  · rename_i a t h
    rw [h] at hdenied
    rintro x hx
    have hd : t.denied = false := hdenied
    rw [hd, if_neg Bool.false_ne_true] at hx
    cases hx
    rw [h]
  · rename_i t h
    rintro x ⟨⟩
    rw [h]
  · rintro x ⟨⟩

/-- The callback of a transaction, with the checks after it. -/
theorem bracket_callback (env : Surroundings E destination complete)
    (hf : Keeps Handled.denied f) : Triple (disk · = d) (do
      let result ← withoutEscapingEffects f
      revokeAndDrain env
      match result with
      | .error c => return .error c
      | .ok result => andOk (return result) fun value => andOk (engine env) fun _ =>
        return .ok value) (Bracket Eq f d) := by
  intro s hs
  -- after the callback: nothing but its own value is a value
  have hafter : ∀ {r : Except (Exn E) (Except Cause α)} {t : Handled World},
      disk t = disk (f { s with denied := false }).2 →
      (∀ v, r = .ok (.ok v) → (f { s with denied := false }).1 = .ok (.ok v)) →
      (∀ c c', (f { s with denied := false }).1 = .ok (.error c) → r = .ok (.error c') →
        c = c') →
      (∀ x, (f { s with denied := false }).1 = .error x → x ≠ .effectDenied → ∃ y, r = .error y) →
      Bracket Eq f d r t :=
    fun ht hv hc hx => .inr ⟨{ s with denied := false }, hs, ht, hv, hc, hx⟩
  have hraised : ∀ {x : Exn E} {t : Handled World},
      disk t = disk (f { s with denied := false }).2 → Bracket Eq f d (.error x) t :=
    fun {x t} ht =>
      hafter ht (fun _ hv => by cases hv) (fun _ _ _ hc => by cases hc) fun _ _ _ => ⟨x, rfl⟩
  refine Triple.bind (P := (· = s)) (Q := Returned f s)
    (fun u hu => hu ▸ returned_of_keeps hf s) (fun x t h => hraised h.1) (fun result => ?_) s rfl
  have hdrain : Triple (Returned f s (.ok result)) (revokeAndDrain env) fun r t =>
      Returned f s (.ok result) t := fun t ht => ⟨((Keeps.ask steady_disk).eq t).trans ht.1, ht.2⟩
  refine hdrain.bind (fun x t h => hraised h.1) fun _ => ?_
  match result with
  | .error c =>
    refine Triple.pure fun t ht => ?_
    have hdenied : (f { s with denied := false }).1 = .error .effectDenied := ht.2 _ rfl
    refine hafter ht.1 (fun _ hv => by cases hv) (fun c' _ he _ => ?_) fun x hx hne => ?_
    · rw [hdenied] at he
      cases he
    · rw [hdenied] at hx
      cases hx
      exact absurd rfl hne
  | .ok (.error c) =>
    refine Triple.pure fun t ht => ?_
    have hc : (f { s with denied := false }).1 = .ok (.error c) := ht.2 _ rfl
    refine hafter ht.1 (fun _ hv => by cases hv) (fun c' c'' he hr => ?_) fun x hx _ => ?_
    · rw [hc] at he
      cases he
      cases hr
      rfl
    · rw [hc] at hx
      cases hx
  | .ok (.ok v) =>
    have hafter' : Triple (Returned f s (.ok (.ok (.ok v)))) (andOk (engine env) fun _ =>
        return .ok v) (Bracket Eq f d) := by
      have hengine : Triple (Returned f s (.ok (.ok (.ok v)))) (engine env) fun _ t =>
          Returned f s (.ok (.ok (.ok v))) t :=
        fun t ht => ⟨((Keeps.ask steady_disk).eq t).trans ht.1, ht.2⟩
      have hv : ∀ {t}, Returned f s (.ok (.ok (.ok v))) t →
          (f { s with denied := false }).1 = .ok (.ok v) := fun ht => ht.2 _ rfl
      refine triple_andOk hengine (fun x t ht => hraised ht.1) (fun e t ht => ?_)
        fun _ => Triple.pure fun t ht => ?_
      · refine hafter ht.1 (fun _ h => by cases h) (fun c c' he _ => ?_) fun x hx _ => ?_
        · rw [hv ht] at he
          cases he
        · rw [hv ht] at hx
          cases hx
      · refine hafter ht.1 (fun w hw => ?_) (fun c c' _ he => by cases he) fun x hx _ => ?_
        · cases hw
          exact hv ht
        · rw [hv ht] at hx
          cases hx
    exact hafter'

theorem bracket_inNativeTransaction (env : Surroundings E destination complete)
    {body : Op E (Except Cause α)} (h : Triple (disk · = d) body (Bracket wrap f d)) :
    Triple (disk · = d) (inNativeTransaction env body) (Bracket wrap f d) :=
  Bracket.before (keeps_checkpoint env steady_disk) fun _ =>
    Bracket.before (keeps_rawBegin env steady_disk) fun _ =>
      triple_andOk h (fun _ _ h => h) (fun _ _ h => h) fun _ =>
        Bracket.after (keeps_checkpoint env steady_disk) fun _ =>
          Bracket.after (keeps_rawCommit env steady_disk) fun _ => Triple.pure fun _ h => h

/-- A failure is reported as it is, or with that of the rollback. -/
def Rolls (l : Lifting Cause) (c c' : Cause) : Prop := c' = c ∨ ∃ e, c' = l.rollbackFailed c e

theorem rolls_of_combine {l : Lifting Cause} {failure : Cause ⊕ Exn E}
    {rolledBack : Except (Exn E) Result} {r : Except Cause α}
    (h : combine l failure rolledBack = .ok r) :
    ∃ c c', failure = .inl c ∧ r = .error c' ∧ Rolls l c c' := by
  rcases failure with c | x <;> rcases rolledBack with y | e | _ <;> cases h
  · exact ⟨c, _, rfl, rfl, .inr ⟨e, rfl⟩⟩
  · exact ⟨c, c, rfl, rfl, .inl rfl⟩

/-- **A recovery** reports the failure, however the rollback and the discard end. -/
theorem recover_spec {l : Lifting Cause} {rollback : Op E Result} {discard : Op E Unit}
    (hr : Keeps disk rollback) (hd : Keeps disk discard) (failure : Cause ⊕ Exn E)
    (t : Handled World) :
    disk ((recover l rollback discard failure : Op E (Except Cause α)) t).2 = disk t ∧
      ∀ r, ((recover l rollback discard failure : Op E (Except Cause α)) t).1 = .ok r →
        ∃ c c', failure = .inl c ∧ r = .error c' ∧ Rolls l c c' := by
  have hrollback := hr.eq t
  unfold recover
  split
  -- the rollback has succeeded
  · rename_i u h
    rw [h] at hrollback
    exact ⟨hrollback, fun r hr => rolls_of_combine hr⟩
  -- it has failed as well, and the connection is discarded
  · rename_i q u _ h
    rw [h] at hrollback
    have hkeeps : Keeps disk (fun t => (combine l failure q, t) : Op E (Except Cause α)) :=
      .of_eq fun _ => rfl
    refine ⟨((hkeeps.protect fun _ => hd).eq u).trans hrollback, fun r hr => ?_⟩
    unfold Comp.protect at hr
    split at hr
    · rename_i a v hc
      have hcombine : combine l failure q = .ok a := congrArg Prod.fst hc
      unfold Comp.andThen at hr
      split at hr
      · cases hr
        exact rolls_of_combine hcombine
      · cases hr
    · split at hr <;> cases hr

theorem bracket_settle {l : Lifting Cause} {rollback : Op E Result} {discard : Op E Unit}
    {work : Op E (Except Cause α)} (hr : Keeps disk rollback) (hd : Keeps disk discard)
    (h : Triple (disk · = d) work (Bracket Eq f d)) :
    Triple (disk · = d) (settle l rollback discard work) (Bracket (Rolls l) f d) := by
  intro s hs
  have hwork := h s hs
  -- what a recovery makes of a bracket that has failed
  have hrecover : ∀ (failure : Cause ⊕ Exn E) (q : Except (Exn E) (Except Cause α))
      (t : Handled World), (∀ v, q ≠ .ok (.ok v)) →
      (∀ c, failure = .inl c → q = .ok (.error c)) →
      Bracket Eq f d q t → ∀ p, p = (recover l rollback discard failure : Op E (Except Cause α)) t →
        Bracket (Rolls l) f d p.1 p.2 := by
    rintro failure q t hq hfailure hb p hp
    obtain ⟨hdisk, hreport⟩ := recover_spec hr hd failure t
    rw [← hp] at hdisk hreport
    have hno : ∀ v, p.1 ≠ .ok (.ok v) := by
      intro v hv
      obtain ⟨_, _, -, he, -⟩ := hreport _ hv
      cases he
    rcases hb with ⟨hsame, -⟩ | ⟨s', hs', ht, -, hc, hx⟩
    · exact .inl ⟨hdisk.trans hsame, hno⟩
    · refine .inr ⟨s', hs', hdisk.trans ht, fun v hv => absurd hv (hno v), fun c c' he hr => ?_,
        fun x he hne => ?_⟩
      · obtain ⟨c₁, c₂, hf₁, he₂, hrolls⟩ := hreport _ hr
        obtain rfl : c = c₁ := hc c c₁ he (hfailure c₁ hf₁)
        cases he₂
        exact hrolls
      · cases hr : p.1 with
        | error y => exact ⟨y, rfl⟩
        | ok r =>
          obtain ⟨c, -, hf₁, -, -⟩ := hreport r hr
          obtain ⟨y, hy⟩ := hx x he hne
          rw [hfailure c hf₁] at hy
          cases hy
  unfold settle
  split
  · rename_i a t ht
    rw [ht] at hwork
    rcases hwork with ⟨-, hno⟩ | ⟨s', hs', hdisk, hv, -, hx⟩
    · exact absurd rfl (hno a)
    · exact .inr ⟨s', hs', hdisk, hv, (fun _ _ _ hr => by cases hr), hx⟩
  · rename_i e t ht
    rw [ht] at hwork
    refine hrecover (.inl e) _ t (fun _ h => by cases h) (fun c hc => ?_) hwork _ rfl
    cases hc
    rfl
  · rename_i x t ht
    rw [ht] at hwork
    exact hrecover (.inr x) _ t (fun _ h => by cases h) (fun c hc => by cases hc) hwork _ rfl

/-- **A transaction around a callback without effects** leaves the files as the callback does,
returns its value or none, and reports its failure. -/
theorem bracket_withTransaction (env : Surroundings E destination complete) {l : Lifting Cause}
    (hf : Keeps Handled.denied f) :
    Triple (disk · = d) (withTransaction env l f) (Bracket (Rolls l) f d) :=
  Bracket.before (keeps_engine env steady_disk) fun _ =>
    bracket_settle
      (((Keeps.ask steady_disk).bind fun _ => keeps_rollbackIfBegun env steady_disk).completed)
      (Keeps.ask steady_disk).completeCleanup
      (bracket_inNativeTransaction env (bracket_callback env hf))

end Bracket

end DuckdbMl.Parquet
