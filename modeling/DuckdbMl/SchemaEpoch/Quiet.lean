import DuckdbMl.SchemaEpoch.Basic

/-!
# What an unchanged epoch tells

Every change that becomes visible is followed by an increment, so a window whose ends read the
same epoch saw no change become visible, provided that at its end no increment is owed. The
proviso is what the stubs leave open: the engine makes the change visible first, and the
increment is a later step.

## Main definitions

* `Session.Consistent`: the transaction flags of a connection agree with each other
* `Carried`, `Quiet`: an unchanged epoch with nothing owed at the end means an unchanged catalog

## Main results

* `Session.Move.consistent`, `Session.Move.quiet`: what one step of a connection keeps
* `quiet_of_run`: every run is quiet
-/

namespace DuckdbMl.SchemaEpoch

open Transition

variable {Cat Sql Ty κ : Type} {L : Language Cat Sql Ty}

/-- The connection may be inside a transaction that is not the user's. -/
def Pc.internal : Pc Cat Sql Ty → Bool
  | .closed | .aborting | .settled _ .abort => true
  | pc => pc.executing

/-- The transaction flags of a connection agree: outside a transaction there is no snapshot and
no change of its own; a transaction with a change of its own has `schema_dirty` set, and so has
one whose change has just become visible. -/
structure Session.Consistent (L : Language Cat Sql Ty) (x : Session Cat Sql Ty) : Prop where
  transaction : x.pc.internal = false → x.inTransaction = x.explicit
  outside : x.inTransaction = false → x.explicit = false ∧ x.snapshot = none ∧ x.pending = []
  dirty : x.pc ≠ .aborting → x.pc ≠ .closed → x.pending ≠ [] → x.dirty = true
  entered : x.pc = .entered → x.dirty = true
  running : ∀ n v p, x.pc = .running n v → x.statements n = some p →
    L.changesSchema p.sql = true → x.dirty = true
  settled : ∀ after, x.pc = .settled true after → x.dirty = true
  ended : ∀ visible after, x.pc = .settled visible after → after ≠ .abort → x.pending = []
  executing : x.pc.executing = true → x.inTransaction = true
  beginning : ∀ n, x.pc = .beginning n → x.explicit = false

theorem Session.fresh_consistent : (Session.fresh : Session Cat Sql Ty).Consistent L := by
  constructor <;> simp [Session.fresh, Pc.executing, Pc.internal]

/-- The position asks nothing of the flags but what every position does. -/
def Pc.ordinary : Pc Cat Sql Ty → Bool
  | .entered | .running _ _ | .settled _ _ | .beginning _ => false
  | _ => true

namespace Session.Consistent

variable {e : Engine Cat} {x : Session Cat Sql Ty} {pc : Pc Cat Sql Ty}

theorem of_ordinary (h : x.pc.ordinary = true)
    (transaction : x.pc.internal = false → x.inTransaction = x.explicit)
    (outside : x.inTransaction = false → x.explicit = false ∧ x.snapshot = none ∧ x.pending = [])
    (dirty : x.pc ≠ .aborting → x.pc ≠ .closed → x.pending ≠ [] → x.dirty = true)
    (executing : x.pc.executing = true → x.inTransaction = true) : x.Consistent L where
  transaction := transaction
  outside := outside
  dirty := dirty
  entered hp := by simp [hp, Pc.ordinary] at h
  running n v p hp := by simp [hp, Pc.ordinary] at h
  settled after hp := by simp [hp, Pc.ordinary] at h
  ended visible after hp := by simp [hp, Pc.ordinary] at h
  executing := executing
  beginning n hp := by simp [hp, Pc.ordinary] at h

@[simp] theorem accessed_pc : (x.accessed e).pc = x.pc := by
  unfold Session.accessed
  split <;> rfl

theorem accessed (hx : x.Consistent L) : (x.accessed e).Consistent L := by
  unfold Session.accessed
  split
  case isTrue h =>
    exact ⟨hx.transaction, fun hn => absurd (h.symm.trans hn) (by decide), hx.dirty, hx.entered,
      hx.running, hx.settled, hx.ended, hx.executing, hx.beginning⟩
  case isFalse => exact hx

theorem record (hx : x.Consistent L) (hp : x.pc.ordinary = true) (n : ℕ) (p : Prepared Sql Ty) :
    (x.record n p).Consistent L :=
  of_ordinary hp hx.transaction hx.outside hx.dirty hx.executing

/-- Outside `execute_prepared`, to a position outside it. -/
theorem goto_plain (hx : x.Consistent L) (h : x.pc.internal = false) (hp : pc.ordinary = true)
    (he : pc.executing = false) : (x.goto pc).Consistent L :=
  of_ordinary hp (fun _ => hx.transaction h) hx.outside
    (fun _ _ => hx.dirty (fun hx => by simp [hx, Pc.internal] at h)
      fun hx => by simp [hx, Pc.internal] at h)
    fun hn => absurd (he.symm.trans hn) (by decide)

theorem pending_dirty (hx : x.Consistent L) (h : x.pc.executing = true) :
    x.pending ≠ [] → x.dirty = true :=
  hx.dirty (fun hx => by simp [hx, Pc.executing] at h) fun hx => by simp [hx, Pc.executing] at h

/-- Inside a transaction, to a position inside `execute_prepared`. -/
theorem goto_executing (hx : x.Consistent L) (h : x.inTransaction = true)
    (hd : x.pending ≠ [] → x.dirty = true) (hp : pc.ordinary = true)
    (he : pc.executing = true) : (x.goto pc).Consistent L := by
  refine of_ordinary hp (fun hi => ?_) hx.outside (fun _ _ => hd) fun _ => h
  cases pc <;> simp_all [Pc.executing, Pc.internal]

/-- Inside `execute_prepared`. -/
theorem proceed (hx : x.Consistent L) (h : x.pc.executing = true) (hp : pc.ordinary = true)
    (he : pc.executing = true) : (x.goto pc).Consistent L :=
  hx.goto_executing (hx.executing h) (hx.pending_dirty h) hp he

theorem aborting (hx : x.Consistent L) : (x.goto .aborting).Consistent L :=
  of_ordinary rfl nofun hx.outside (fun h => absurd rfl h) nofun

theorem closed (hx : x.Consistent L) : (x.goto .closed).Consistent L :=
  of_ordinary rfl nofun hx.outside (fun _ h => absurd rfl h) nofun

/-- Out of `execute_prepared`, in the user's transaction. -/
theorem idle (hx : x.Consistent L) (h : x.pc.executing = true) (he : x.explicit = true) :
    (x.goto .idle).Consistent L :=
  of_ordinary rfl (fun _ => (hx.executing h).trans he.symm) hx.outside
    (fun _ _ => hx.pending_dirty h) nofun

theorem abort (hx : x.Consistent L) (h : x.pc.executing = true) : x.abort.Consistent L := by
  unfold Session.abort
  cases he : x.explicit with
  | true => exact hx.idle h he
  | false => exact hx.aborting

theorem settled_abort (hx : x.Consistent L) (h : x.inTransaction = true)
    (hd : x.pending ≠ [] → x.dirty = true) :
    (x.goto (.settled false .abort)).Consistent L where
  transaction := nofun
  outside := hx.outside
  dirty _ _ := hd
  entered := nofun
  running := nofun
  settled := nofun
  ended visible after hp ha := by
    obtain ⟨-, rfl⟩ : false = visible ∧ After.abort = after := by simpa using hp
    exact absurd rfl ha
  executing _ := h
  beginning := nofun

/-- The transaction has ended: nothing of it is left but the increment. -/
theorem ended_settled {visible : Bool} (after : After Cat)
    (hd : visible = true → x.dirty = true) : (x.ended.goto (.settled visible after)).Consistent L where
  transaction _ := rfl
  outside _ := ⟨rfl, rfl, rfl⟩
  dirty _ _ hp := absurd rfl hp
  entered := nofun
  running := nofun
  settled _ hp := by
    obtain ⟨rfl, -⟩ : visible = true ∧ _ := by simpa using hp
    exact hd rfl
  ended _ _ _ _ := rfl
  executing := nofun
  beginning := nofun

theorem commit (hx : x.Consistent L) (h : x.inTransaction = true)
    (hd : x.pending ≠ [] → x.dirty = true) (ok : Bool) (after : After Cat) :
    (Session.commit e x ok after).2.1.Consistent L := by
  cases ok with
  | true => exact ended_settled after fun hp => hd (by simpa using hp)
  | false => exact hx.settled_abort h hd

theorem rollback (hx : x.Consistent L) (ok : Bool) :
    (Session.rollback e x ok).2.1.Consistent L := by
  cases ok with
  | true => exact ended_settled .idle nofun
  | false => exact hx.closed

theorem opened (b : Bool) (hp : x.pc.ordinary = true)
    (hi : x.pc.internal = false → b = true) : (x.opened b).Consistent L :=
  of_ordinary hp (fun h => (hi h).symm) nofun (fun _ _ h => absurd rfl h) fun _ => rfl

end Session.Consistent

/-- A step of a connection keeps its flags consistent. -/
theorem Session.Move.consistent {e : Engine Cat} {x : Session Cat Sql Ty} {a : Act Cat Sql}
    {r : Outcome Cat Sql Ty} (h : Session.Move L e x a r) (hx : x.Consistent L) :
    r.2.1.Consistent L := by
  have inside {pc : Pc Cat Sql Ty} (hpc : x.pc = pc) (h : pc.executing = true) :
      x.pc.executing = true := hpc ▸ h
  have outer {pc : Pc Cat Sql Ty} (hpc : x.pc = pc) (h : pc.internal = false) :
      x.pc.internal = false := hpc ▸ h
  have accessed : (x.accessed e).Consistent L := hx.accessed
  cases h with
  | begin hpc _ => exact .opened true (hpc ▸ rfl) fun _ => rfl
  | commit ok hpc he =>
    exact hx.commit ((hx.transaction (outer hpc rfl)).trans he)
      (hx.dirty (by simp [hpc]) (by simp [hpc])) ok .idle
  | rollback ok _ _ => exact hx.rollback ok
  | other _ => exact accessed
  | enter hpc =>
    exact ⟨fun _ => hx.transaction (outer hpc rfl), hx.outside, fun _ _ _ => rfl, fun _ => rfl,
      nofun, nofun, nofun, nofun, nofun⟩
  -- a statement executes: nothing is pending, or the transaction has a change to settle
  | run change hpc =>
    have hplain (visible : Bool) : (x.goto (.executed visible)).Consistent L :=
      hx.goto_plain (outer hpc rfl) rfl rfl
    cases change with
    | none => exact hplain false
    | some f =>
      rw [runChange]
      split
      case isTrue h =>
        exact .of_ordinary rfl (fun _ => hx.transaction (outer hpc rfl))
          (fun hn => absurd (h.symm.trans hn) (by decide)) (fun _ _ _ => hx.entered hpc) nofun
      case isFalse => exact hplain true
  | leave visible hpc => exact hx.goto_plain (outer hpc rfl) rfl rfl
  | settle visible after hpc =>
    cases after with
    | idle =>
      have hp : x.pending = [] := hx.ended _ _ hpc nofun
      exact .of_ordinary rfl (fun _ => hx.transaction (outer hpc rfl)) hx.outside
        (fun _ _ hn => absurd hp hn) nofun
    | abort => exact .of_ordinary rfl nofun hx.outside (fun h => absurd rfl h) nofun
    | publish n snapshot =>
      have hp : x.pending = [] := hx.ended _ _ hpc nofun
      exact .of_ordinary rfl (fun _ => hx.transaction (outer hpc rfl)) hx.outside
        (fun _ _ hn => absurd hp hn) nofun
  | prepare sql hpc => exact hx.goto_plain (outer hpc rfl) rfl rfl
  | prepared sql before types hpc _ | unprepared sql before hpc _ =>
    exact accessed.goto_plain (by simpa using outer hpc rfl) rfl rfl
  | register sql before types n hpc _ =>
    exact (hx.record (hpc ▸ rfl) n _).goto_plain (outer hpc rfl) rfl rfl
  -- a prepared execution runs in the transaction there is, or opens one of its own
  | execute n p hpc _ =>
    have ht := hx.transaction (outer hpc rfl)
    cases he : x.explicit with
    | true =>
      exact hx.goto_executing (ht.trans he) (hx.dirty (by simp [hpc]) (by simp [hpc])) rfl rfl
    | false =>
      exact ⟨fun _ => ht, hx.outside, fun _ _ => hx.dirty (by simp [hpc]) (by simp [hpc]), nofun,
        nofun, nofun, nofun, nofun, fun _ _ => he⟩
  | beginning n _ => exact .of_ordinary rfl nofun nofun (fun _ _ h => absurd rfl h) fun _ => rfl
  | validate n p hpc _ =>
    have hproceed {pc : Pc Cat Sql Ty} (hp : pc.ordinary = true) (he : pc.executing = true) :=
      hx.proceed (inside hpc rfl) hp he
    unfold Session.validate
    split
    · exact hproceed rfl rfl
    · split <;> exact hproceed rfl rfl
  | stale n hpc | unstable n before hpc => exact hx.proceed (inside hpc rfl) rfl rfl
  | check n before p hpc _ _ | compare n snapshot p hpc _ _ =>
    exact accessed.proceed (by simpa using inside hpc rfl) rfl rfl
  | mismatch n before p hpc _ | differ n snapshot p hpc _ =>
    exact accessed.abort (by simpa using inside hpc rfl)
  | revalidate n before epoch p hpc _ _ =>
    exact (hx.record (hpc ▸ rfl) n _).proceed (inside hpc rfl) rfl rfl
  -- a prepared statement that changes the schema has entered before it runs
  | change n v p hpc _ _ =>
    exact ⟨nofun, hx.outside, fun _ _ _ => rfl, nofun, fun _ _ _ _ _ _ => rfl, nofun, nofun,
      fun _ => hx.executing (inside hpc rfl), nofun⟩
  | plain n v p hpc hp hc =>
    refine ⟨nofun, hx.outside, fun _ _ => hx.pending_dirty (inside hpc rfl), nofun,
      fun m w q hq hs hchanges => ?_, nofun, nofun, fun _ => hx.executing (inside hpc rfl), nofun⟩
    obtain ⟨rfl, rfl⟩ : n = m ∧ v = w := by simpa using hq
    obtain rfl := Option.some.inj (hp.symm.trans hs)
    exact absurd (hc.symm.trans hchanges) (by decide)
  -- what it changed is pending until the transaction ends
  | runPrepared n v p change hpc hp =>
    have hproceed (ok : Bool) : ((x.accessed e).goto (.ran n v ok (x.access e))).Consistent L :=
      accessed.proceed (by simpa using inside hpc rfl) rfl rfl
    cases change with
    | none => exact hproceed false
    | some f =>
      rw [Session.runPrepared]
      split
      case isTrue hc =>
        have ht := hx.executing (inside hpc rfl)
        exact .of_ordinary rfl nofun (fun hn => absurd (ht.symm.trans hn) (by decide))
          (fun _ _ _ => hx.running n v p hpc hp hc) fun _ => ht
      case isFalse => exact hproceed true
  | ran n v ok snapshot p hpc _ =>
    cases ok with
    | true => exact hx.proceed (inside hpc rfl) rfl rfl
    | false => exact hx.abort (inside hpc rfl)
  | recheck n v snapshot p hpc _ =>
    have hproceed {pc : Pc Cat Sql Ty} (hp : pc.ordinary = true) (he : pc.executing = true) :=
      hx.proceed (inside hpc rfl) hp he
    cases v with
    | noParameters | checked => exact hproceed rfl rfl
    | skipped epoch =>
      rw [Session.recheck]
      split <;> exact hproceed rfl rfl
  -- the execution is over, and so is the transaction that it opened for itself
  | publish n snapshot hpc he => exact hx.idle (inside hpc rfl) he
  | settlePrepared n snapshot ok hpc _ =>
    exact hx.commit (hx.executing (inside hpc rfl)) (hx.pending_dirty (inside hpc rfl)) ok _
  | abort ok _ => exact hx.rollback ok
  -- an error leaves the session idle, closed or about to roll back
  | fail pc hpc _ ha hc hs =>
    obtain ⟨rfl, he⟩ | rfl | rfl := hpc
    · cases hin : x.pc.executing with
      | true => exact hx.idle hin (he hin)
      | false =>
        refine hx.goto_plain ?_ rfl rfl
        unfold Pc.internal
        split
        · exact absurd ‹_› hc
        · exact absurd ‹_› ha
        · exact absurd ‹_› (hs _ _)
        · exact hin
    · exact hx.closed
    · exact hx.aborting
  | withdraw visible n snapshot hpc =>
    have hp : x.pending = [] := hx.ended _ _ hpc nofun
    refine ⟨fun _ => hx.transaction (outer hpc rfl), hx.outside, fun _ _ hn => absurd hp hn, nofun,
      nofun, fun after ha => ?_, fun _ _ _ _ => hp, nofun, nofun⟩
    obtain ⟨rfl, -⟩ : visible = true ∧ _ := by simpa using ha
    exact hx.settled _ hpc

/-- The step advanced the epoch, or left an increment owed, or the engine is the same. -/
def Outcome.Quiet (e : Engine Cat) (x : Session Cat Sql Ty) (r : Outcome Cat Sql Ty) : Prop :=
  e.epoch ≤ r.1.epoch ∧ (r.1.epoch = e.epoch → r.2.1.owes = false → x.owes = false ∧ r.1 = e)

namespace Outcome.Quiet

variable {e : Engine Cat} {x : Session Cat Sql Ty} {r : Outcome Cat Sql Ty}

theorem same (hr : r.1 = e) (hw : x.owes = false) : Quiet e x r :=
  ⟨Nat.le_of_eq (congrArg Engine.epoch hr.symm), fun _ _ => ⟨hw, hr⟩⟩

theorem advanced (hr : r.1 = e.advance) : Quiet e x r := by
  rw [Quiet, hr]
  exact ⟨Nat.le_succ _, fun h => absurd h (Nat.succ_ne_self _)⟩

theorem visible (hr : r.1.epoch = e.epoch) (hw : r.2.1.owes = true) : Quiet e x r :=
  ⟨Nat.le_of_eq hr.symm, fun _ h => absurd (hw.symm.trans h) (by decide)⟩

theorem committed (hw : x.owes = false) (ok : Bool) (after : After Cat) :
    Quiet e x (Session.commit e x ok after) := by
  cases ok with
  | false => exact same rfl hw
  | true =>
    cases hp : x.pending with
    | nil => exact same (by simp [Session.commit, hp]) hw
    | cons f fs =>
      exact visible (by simp [Session.commit]) (by simp [Session.commit, Session.owes, hp])

theorem left (hw : x.owes = false) (changing : Bool) (y : Session Cat Sql Ty)
    (published : Option (Published Cat Sql Ty)) :
    Quiet e x (e.schemaLeave changing, y, published) := by
  cases changing with
  | true => exact advanced rfl
  | false => exact same rfl hw

end Outcome.Quiet

/-- A step of a connection advances the epoch, or it leaves an increment owed, or it changes
nothing that the other connections see. -/
theorem Session.Move.quiet {e : Engine Cat} {x : Session Cat Sql Ty} {a : Act Cat Sql}
    {r : Outcome Cat Sql Ty} (h : Session.Move L e x a r) (hx : x.Consistent L) :
    r.Quiet e x := by
  cases h with
  | commit ok hpc _ => exact .committed (by simp [Session.owes, hpc]) ok _
  | settlePrepared n snapshot ok hpc _ => exact .committed (by simp [Session.owes, hpc]) ok _
  | enter _ | leave _ _ | change _ _ _ _ _ _ => exact .advanced rfl
  | run change hpc =>
    have hw : x.owes = false := by simp [Session.owes, hpc]
    cases change with
    | none => exact .same rfl hw
    | some f =>
      rw [runChange]
      split
      · exact .same rfl hw
      · exact .visible (Engine.publish_epoch _ _) rfl
  | settle v after hpc =>
    cases hd : x.dirty with
    | true => exact .advanced rfl
    | false =>
      refine .same rfl ?_
      cases v with
      | false => simp [Session.owes, hpc]
      | true => exact absurd (hd.symm.trans (hx.settled _ hpc)) (by decide)
  | runPrepared n v p change hpc _ =>
    have hw : x.owes = false := by simp [Session.owes, hpc]
    cases change with
    | none => exact .same rfl hw
    | some f =>
      rw [Session.runPrepared]
      split <;> exact .same rfl hw
  | ran n v ok snapshot p hpc _ => exact .left (by simp [Session.owes, hpc]) _ _ _
  | rollback ok hpc _ => cases ok <;> exact .same rfl (by simp [Session.owes, hpc])
  | abort ok hpc => cases ok <;> exact .same rfl (by simp [Session.owes, hpc])
  | fail pc _ ho _ _ _ => exact .same rfl ho
  | withdraw v n snapshot hpc =>
    cases v with
    | false => exact .same rfl (by simp [Session.owes, hpc])
    | true => exact .visible rfl rfl
  | begin hpc _ | other hpc | prepare _ hpc | prepared _ _ _ hpc _ | unprepared _ _ hpc _
  | register _ _ _ _ hpc _ | execute _ _ hpc _ | beginning _ hpc | validate _ _ hpc _
  | stale _ hpc | check _ _ _ hpc _ _ | mismatch _ _ _ hpc _ | revalidate _ _ _ _ hpc _ _
  | unstable _ _ hpc | plain _ _ _ hpc _ _ | recheck _ _ _ _ hpc _ | compare _ _ _ hpc _ _
  | differ _ _ _ hpc _ | publish _ _ hpc _ => exact .same rfl (by simp [Session.owes, hpc])

/-- The epoch does not go back, and when it is unchanged with nothing owed at the end (`u'`), then
nothing was owed at the start (`u`) and the engine is the same. -/
def Carried (e : Engine Cat) (u : Prop) (e' : Engine Cat) (u' : Prop) : Prop :=
  e.epoch ≤ e'.epoch ∧ (e'.epoch = e.epoch → ¬ u' → ¬ u ∧ e' = e)

/-- An unchanged epoch, with nothing owed at the end, means that nothing was owed at the start
and that no change became visible. -/
def Quiet (w w' : World κ Cat Sql Ty) : Prop :=
  Carried w.engine (Unannounced w) w'.engine (Unannounced w')

theorem Quiet.refl (w : World κ Cat Sql Ty) : Quiet w w := ⟨Nat.le_refl _, fun _ h => ⟨h, rfl⟩⟩

theorem Quiet.trans {w₁ w₂ w₃ : World κ Cat Sql Ty} (h₁ : Quiet w₁ w₂) (h₂ : Quiet w₂ w₃) :
    Quiet w₁ w₃ := by
  obtain ⟨le₁, q₁⟩ := h₁
  obtain ⟨le₂, q₂⟩ := h₂
  refine ⟨Nat.le_trans le₁ le₂, fun he hu => ?_⟩
  obtain ⟨hu₂, he₂⟩ := q₂ (by omega) hu
  obtain ⟨hu₁, he₁⟩ := q₁ (by omega) hu₂
  exact ⟨hu₁, he₂.trans he₁⟩

variable [DecidableEq Ty] [DecidableEq κ]

/-- A step of the process, as a move of the connection that takes it. -/
theorem World.step_eq_some {w w' : World κ Cat Sql Ty} {a : κ × Act Cat Sql}
    (h : (system L κ).step w a = some w') :
    ∃ r, Session.Move L w.engine (w.sessions a.1) a.2 r ∧
      w' = ⟨r.1, Function.update w.sessions a.1 r.2.1, r.2.2.toList ++ w.published⟩ := by
  obtain ⟨r, hr, rfl⟩ := Option.map_eq_some_iff.mp h
  exact ⟨r, Session.move_of_step L hr, rfl⟩

/-- Every connection's flags are consistent. -/
def World.Consistent (L : Language Cat Sql Ty) (w : World κ Cat Sql Ty) : Prop :=
  ∀ k, (w.sessions k).Consistent L

theorem World.step_consistent {w w' : World κ Cat Sql Ty} {a : κ × Act Cat Sql}
    (hw : w.Consistent L) (h : (system L κ).step w a = some w') : w'.Consistent L := by
  obtain ⟨r, hm, rfl⟩ := World.step_eq_some h
  intro j
  by_cases hj : j = a.1
  · subst hj
    simpa using hm.consistent (hw a.1)
  · simpa [hj] using hw j

theorem World.step_quiet {w w' : World κ Cat Sql Ty} {a : κ × Act Cat Sql}
    (hw : w.Consistent L) (h : (system L κ).step w a = some w') : Quiet w w' := by
  obtain ⟨r, hm, rfl⟩ := World.step_eq_some h
  obtain ⟨hle, hq⟩ := hm.quiet (hw a.1)
  refine ⟨hle, fun he hu => ?_⟩
  have hk : r.2.1.owes = false := by
    by_contra hr
    exact hu ⟨a.1, by simpa using hr⟩
  obtain ⟨hx, hr⟩ := hq he hk
  refine ⟨?_, hr⟩
  rintro ⟨j, hj⟩
  by_cases hjk : j = a.1
  · subst hjk
    simp [hx] at hj
  · exact hu ⟨j, by simpa [hjk] using hj⟩

variable {G : Guard (World κ Cat Sql Ty) (κ × Act Cat Sql)}

/-- **Every run is quiet**: when its ends have the same epoch and nothing is owed at its end, no
schema change became visible in it. -/
theorem quiet_of_run {w w' : World κ Cat Sql Ty} {as : List (κ × Act Cat Sql)}
    (hw : w.Consistent L) (hr : (system L κ).Run G w as w') : Quiet w w' :=
  hr.rel (I := World.Consistent L) Quiet.refl (fun _ _ _ => Quiet.trans)
    (fun _ _ _ hw _ hs => World.step_consistent hw hs)
    (fun _ _ _ hw _ hs => World.step_quiet hw hs) hw

end DuckdbMl.SchemaEpoch
