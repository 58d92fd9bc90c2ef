import DuckdbMl.Delivery.Confinement
import DuckdbMl.Transition.Ranking

/-!
# The progress of the controller

As long as a call for a cancelled request may be interrupted, every six steps of its controller
interrupt it once: an interrupt that the engine loses is repeated. A controller that has been told
to stop ends after four of its steps, and the worker gets its connection back.

## Main results

* `interrupts_persist`: the steps of the controller are bounded by the interrupts
* `controller_retires`: the steps of a controller that is stopped are bounded
-/

namespace DuckdbMl.Delivery

open Transition (Guard System)

variable {w u : World} {r : ℕ} {p : Position}

/-- The steps of the controller. -/
def Label.controls : Label → Bool
  | .control => true
  | _ => false

/-- The controller waits for nothing. -/
theorem Inv.control_enabled (h : Inv w) (hc : w.controller = some (r, p))
    (hruntime : w.runtime = some .controller) :
    ∃ u, w.step .control = some (some u) ∧ w.control r p = some u ∧ Inv u := by
  obtain ⟨u, hu, hinv⟩ := h.control hc hruntime
  refine ⟨u, ?_, hu, hinv⟩
  simp only [World.step, hc]
  rw [if_pos hruntime, hu]

/-! ### While a call may be interrupted -/

/-- The worker is in a call that may be interrupted, for a request that has been cancelled. -/
structure Urgent (r : ℕ) (w : World) : Prop where
  session : w.session = .leased r
  calling : w.worker.inside.map Call.window = some .user
  cancelled : (w.requests r).cancelled = true
  connected : w.owner.connected = true

/-- The steps of the controller up to an interrupt. -/
def Position.untilInterrupt : Position → ℕ
  | .retire => 6
  | .test => 5
  | .reserve => 4
  | .reserving => 3
  | .deliver => 2
  | .interrupting => 1

theorem Position.untilInterrupt_le (p : Position) : p.untilInterrupt ≤ 6 := by
  cases p <;> decide

theorem Position.untilInterrupt_pos (p : Position) : 1 ≤ p.untilInterrupt := by
  cases p <;> decide

theorem Worker.exists_calling {x : Worker} (h : x.inside.map Call.window = some .user) :
    ∃ c k, x = .calling c k ∧ c.window = .user := by
  cases x with
  | ready => cases h
  | running locked k => cases h
  | calling c k => exact ⟨c, k, rfl, Option.some.inj h⟩

/-- The owner is in the phase of a user call then, without the runtime. -/
theorem Inv.at_call (h : Inv w) (hu : Urgent r w) :
    eligible r (w.requests r) w.owner = true ∧ w.worker.locked = false ∧
      w.runtime ≠ some .worker := by
  obtain ⟨c, k, hworker, hc⟩ := Worker.exists_calling hu.calling
  have hw := h.worker
  unfold WorkerOk at hw
  rw [hworker] at hw
  obtain ⟨s, hs, hpermits, -⟩ := hw
  have hwindow : s.window = some true := by
    rw [Shape.permits, hc] at hpermits
    exact hpermits
  obtain ⟨-, -, hclosing, hblocking⟩ := hs.shape.ok (by rw [hwindow]; simp)
  have hactive : w.owner.active = some r := by
    rw [h.session.active, hu.session]
    rfl
  have hphase : w.owner.phase = .user := by
    rw [hs.shape.owner.phase, hactive, hwindow]
    rfl
  refine ⟨?_, by rw [hworker]; rfl, fun he => ?_⟩
  · rw [eligible, hactive, hu.cancelled, hphase, hs.shape.owner.closing, hclosing, hu.connected]
    simp
  · exact Bool.false_ne_true ((hs.runtime.mp he).symm.trans hblocking)

/-- A step of the controller brings the interrupt nearer, or is the interrupt. -/
theorem Urgent.control (hu : Urgent r w) (h : Inv w) (hc : w.controller = some (r, p)) :
    ∃ v q, w.control r p = some v ∧ v.controller = some (r, q) ∧ Urgent r v ∧
      (q.untilInterrupt + 1 = p.untilInterrupt ∧ v.log = w.log ∨
        p = .interrupting ∧ q = .retire ∧ v.log = .interrupted r :: w.log) := by
  obtain ⟨heligible, hworker, -⟩ := h.at_call hu
  have hactive := h.active_of_controller hc
  have hreserved := h.reserved_eq hc
  have hbound : (w.requests r).owner = true := (h.session.bound r).mpr hactive
  have halive := h.session.not_disposed hactive
  have hstop : (w.requests r).stop = false := h.session.going r (by rw [hu.session]; rfl)
  have hguard : p.locked = false → w.guard = none := fun hp =>
    h.guard.free hworker fun x q hq => by cases hc.symm.trans hq; exact hp
  -- what the step writes to the request does not lift the cancellation
  have hset : ∀ b : Bool, (Function.update w.requests r
      { w.requests r with reserved := b } r).cancelled = true := fun b => by
    rw [Function.update_self]
    exact hu.cancelled
  cases p with
  | test =>
    refine ⟨w.at_ r .reserve, .reserve, ?_, rfl, ⟨hu.session, hu.calling, hu.cancelled,
      hu.connected⟩, .inl ⟨rfl, rfl⟩⟩
    exact if_neg (by rw [hstop]; simp)
  | reserve =>
    refine ⟨{ w with guard := some .controller }.at_ r .reserving, .reserving, ?_, rfl,
      ⟨hu.session, hu.calling, hu.cancelled, hu.connected⟩, .inl ⟨rfl, rfl⟩⟩
    exact if_neg (by rw [halive, hbound, hguard rfl]; simp)
  | reserving =>
    have hreserve : reserveDelivery r (w.requests r) w.owner =
        (.reserved, { w.requests r with reserved := true }) := by
      rw [reserveDelivery, hreserved, if_neg (by simp [Position.reserved]), if_pos heligible]
    refine ⟨({ w with guard := none }.setRequest r
      { w.requests r with reserved := true }).at_ r .deliver, .deliver, ?_, rfl,
      ⟨hu.session, hu.calling, hset true, hu.connected⟩, .inl ⟨rfl, rfl⟩⟩
    unfold World.control
    rw [hreserve]
  | deliver =>
    refine ⟨{ w with guard := some .controller }.at_ r .interrupting, .interrupting, ?_, rfl,
      ⟨hu.session, hu.calling, hu.cancelled, hu.connected⟩, .inl ⟨rfl, rfl⟩⟩
    have hheld : ¬((w.requests r).disposed || !(w.requests r).reserved) = true := by
      rw [halive, hreserved]
      simp [Position.reserved]
    have hfree : ¬(!(w.requests r).owner || w.guard.isSome) = true := by
      rw [hbound, hguard rfl]
      simp
    exact (if_neg hheld).trans (if_neg hfree)
  | interrupting =>
    refine ⟨({ w with guard := none }.at_ r .retire).record (.interrupted r), .retire, ?_, rfl,
      ⟨hu.session, hu.calling, hu.cancelled, hu.connected⟩, .inr ⟨rfl, rfl, rfl⟩⟩
    unfold World.control tryInterrupt
    rw [if_pos heligible]
  | retire =>
    exact ⟨(w.setRequest r { w.requests r with reserved := false }).at_ r .test, .test, rfl, rfl,
      ⟨hu.session, hu.calling, hset false, hu.connected⟩, .inl ⟨rfl, rfl⟩⟩

/-- The others leave the call and its request alone. -/
theorem Urgent.other (hu : Urgent r w) {l : Label} (hl : ∀ a, l ≠ .work a) (hc : l ≠ .control)
    (ht : w.step l = some (some u)) :
    Urgent r u ∧ u.controller = w.controller ∧
      u.log.count (.interrupted r) = w.log.count (.interrupted r) := by
  cases World.stepped ht with
  | work a => exact absurd rfl (hl a)
  | control => exact absurd rfl hc
  | manage hm =>
    -- between two stubs the worker is in no call
    obtain ⟨c, k, hworker, -⟩ := Worker.exists_calling hu.calling
    cases hworker.symm.trans hm.ready
  | take | give => exact ⟨⟨hu.session, hu.calling, hu.cancelled, hu.connected⟩, rfl, rfl⟩
  | cancel x =>
    unfold World.cancel
    split
    · exact ⟨hu, rfl, rfl⟩
    · refine ⟨⟨hu.session, hu.calling, ?_, hu.connected⟩, rfl, List.count_cons_of_ne (by simp)⟩
      change (Function.update w.requests x { w.requests x with cancelled := true } r).cancelled =
        true
      rcases eq_or_ne r x with rfl | hx
      · rw [Function.update_self]
      · rw [Function.update_of_ne hx]
        exact hu.cancelled

/-- The steps of the controller up to the next interrupt. -/
def World.untilInterrupt (w : World) : ℕ := (w.controller.map (·.2.untilInterrupt)).getD 1

theorem Inv.leased_controller (h : Inv w) (hs : w.session = .leased r) :
    ∃ p, w.controller = some (r, p) ∧ w.untilInterrupt = p.untilInterrupt := by
  obtain ⟨p, hp⟩ := h.controller.leased r hs
  exact ⟨p, hp, by rw [World.untilInterrupt, hp]; rfl⟩

/-- The call is still open, or the system has failed. -/
def UrgentRun (r : ℕ) (s : Option World) : Prop := ∃ w, s = some w ∧ Inv w ∧ Urgent r w

theorem UrgentRun.step {s t : Option World} {l : Label} (h : UrgentRun r s) (hl : ∀ a, l ≠ .work a)
    (ht : system.step s l = some t) : UrgentRun r t ∧
      (t.map World.untilInterrupt).getD 0 +
        (s.map fun w => 6 * w.log.count (.interrupted r)).getD 0 + l.controls.toNat ≤
      (s.map World.untilInterrupt).getD 0 +
        (t.map fun w => 6 * w.log.count (.interrupted r)).getD 0 := by
  obtain ⟨w, rfl, hinv, hu⟩ := h
  obtain ⟨u, rfl, hinv'⟩ := hinv.step ht
  change w.step l = some (some u) at ht
  -- a leased request has its controller, and the distance to the interrupt is by its position
  obtain ⟨p, hp, hrank⟩ := hinv.leased_controller hu.session
  by_cases hl' : l = .control
  -- a step of the controller: nearer by one, or the interrupt, after which it is six away again
  · subst hl'
    obtain ⟨v, q, hv, hq, hurgent, hcase⟩ := hu.control hinv hp
    have huv : u = v := by
      simp only [World.step, hp] at ht
      split at ht
      · exact Option.some.inj ((Option.some.inj ht).symm.trans hv)
      · cases ht
    subst huv
    have hrank' : u.untilInterrupt = q.untilInterrupt := by
      rw [World.untilInterrupt, hq]
      rfl
    refine ⟨⟨u, rfl, hinv', hurgent⟩, ?_⟩
    change u.untilInterrupt + 6 * w.log.count (.interrupted r) + 1 ≤
      w.untilInterrupt + 6 * u.log.count (.interrupted r)
    rw [hrank, hrank']
    rcases hcase with ⟨hq, hlog⟩ | ⟨rfl, rfl, hlog⟩
    · rw [hlog]
      omega
    · rw [hlog, List.count_cons_self]
      change 6 + 6 * _ + 1 ≤ 1 + 6 * _
      omega
  -- a step of another thread moves no controller and interrupts nothing
  · obtain ⟨hurgent, hcontroller, hcount⟩ := hu.other hl hl' ht
    refine ⟨⟨u, rfl, hinv', hurgent⟩, ?_⟩
    have hcontrols : l.controls = false := by
      cases l with
      | control => exact absurd rfl hl'
      | _ => rfl
    change u.untilInterrupt + 6 * w.log.count (.interrupted r) + l.controls.toNat ≤
      w.untilInterrupt + 6 * u.log.count (.interrupted r)
    rw [World.untilInterrupt, World.untilInterrupt, hcontroller, hcount, hcontrols]
    exact le_rfl

/-- **A cancellation is delivered as long as it takes.** In a call that may be interrupted, for a
request that has been cancelled, at most five steps of the controller pass before it interrupts the
engine, and at most six from one interrupt to the next, whatever the other threads do but the return
of the call. The worker leaves the runtime to the controller meanwhile, and with it the controller
is never blocked. -/
theorem interrupts_persist (h : system.Reachable Guard.free (some w)) (hu : Urgent r w)
    {ls : List Label} {t : World}
    (hr : system.Run (fun _ l => ∀ a, l ≠ .work a) (some w) ls (some t)) :
    6 * w.log.count (.interrupted r) + ls.countP Label.controls ≤
      6 * t.log.count (.interrupted r) + 5 ∧
    t.runtime ≠ some .worker ∧
    (t.runtime = some .controller → ∃ u, system.step (some t) .control = some (some u)) := by
  obtain ⟨w', hw, hinv⟩ := inv_of_reachable h
  cases hw
  have hstart : UrgentRun r (some w) := ⟨w, rfl, hinv, hu⟩
  have hend := hr.induction (fun _ _ _ hs hl ht => (hs.step hl ht).1) hstart
  -- an interrupt pays for the six steps after it
  have hrank := hr.rank_le (UrgentRun r) (fun s => (s.map World.untilInterrupt).getD 0)
    (fun s => (s.map fun w => 6 * w.log.count (.interrupted r)).getD 0) Label.controls
    (fun _ _ _ hs hl ht => (hs.step hl ht).1) (fun _ _ _ hs hl ht => (hs.step hl ht).2) hstart
  obtain ⟨t', ht, hinv', hu'⟩ := hend
  cases ht
  obtain ⟨p, -, hp⟩ := hinv.leased_controller hu.session
  obtain ⟨q, hq, hq'⟩ := hinv'.leased_controller hu'.session
  refine ⟨?_, (hinv'.at_call hu').2.2, fun hruntime => ?_⟩
  · change t.untilInterrupt + 6 * w.log.count (.interrupted r) + ls.countP Label.controls ≤
      w.untilInterrupt + 6 * t.log.count (.interrupted r) at hrank
    have hle := p.untilInterrupt_le
    have hpos := q.untilInterrupt_pos
    omega
  · obtain ⟨u, hstep, -, -⟩ := hinv'.control_enabled hq hruntime
    exact ⟨u, hstep⟩

theorem interrupts_persist_sampleCall :
    6 * (worldAfter sampleCall).log.count (.interrupted 0) + 5 ≤
      6 * (worldAfter sampleInterrupt).log.count (.interrupted 0) + 5 := by
  have hrun : system.Run (fun _ l => ∀ a, l ≠ .work a) (some (worldAfter sampleCall))
      (.replicate 5 .control) (some (worldAfter sampleInterrupt)) :=
    System.run_of_execWithin (g := fun _ l => l.controls)
      (fun _ _ hl a he => by rw [he] at hl; cases hl) rfl
  exact (interrupts_persist reachable_sampleCall ⟨rfl, rfl, rfl, rfl⟩ hrun).1

/-! ### After the stop -/

/-- The steps of a controller that has been told to stop, up to its end. -/
def Position.untilExit : Position → ℕ
  | .test => 1
  | .reserving | .retire => 2
  | .reserve | .interrupting => 3
  | .deliver => 4

/-- The controller has ended, or the worker waits for its end. -/
def Stopping (w : World) : Prop :=
  w.controller = none ∨ (∃ r, w.session = .stopping r) ∧ w.worker = .ready

def World.untilExit (w : World) : ℕ := (w.controller.map (·.2.untilExit)).getD 0

theorem Position.untilExit_le (p : Position) : p.untilExit ≤ 4 := by
  cases p <;> decide

theorem World.untilExit_le (w : World) : w.untilExit ≤ 4 := by
  unfold World.untilExit
  rcases w.controller with _ | ⟨r, p⟩
  · exact Nat.zero_le _
  · exact p.untilExit_le

/-- Nothing is delivered between two stubs. -/
theorem Inv.not_eligible (h : Inv w) (hready : w.worker = .ready) (x : ℕ) (q : Request) :
    eligible x q w.owner = false := by
  have hrest := h.worker.at_rest hready
  refine Bool.eq_false_iff.mpr fun he => ?_
  have hwindow := hrest.owner.window_of_user (cancelled_of_eligible he).2
  cases hwindow

/-- A step of a controller that has been told to stop brings its end nearer. -/
theorem Inv.control_stopping (h : Inv w) (hs : w.session = .stopping r) (hready : w.worker = .ready)
    (hc : w.controller = some (r, p)) (ht : w.control r p = some u) :
    u.untilExit + 1 ≤ p.untilExit ∧ u.worker = w.worker ∧ u.session = w.session := by
  have hstop := h.session.stop r hs
  -- with the worker outside a stub no request is eligible, so that it cannot be interrupted
  have hineligible := h.not_eligible hready r (w.requests r)
  cases p with
  | test =>
    cases ht.symm.trans (if_pos hstop)
    exact ⟨le_rfl, rfl, rfl⟩
  | reserve =>
    change (if _ then _ else _) = _ at ht
    split at ht
    · cases ht
      exact ⟨Nat.le_succ 2, rfl, rfl⟩
    · cases ht
      exact ⟨le_rfl, rfl, rfl⟩
  | reserving =>
    have hreserve : reserveDelivery r (w.requests r) w.owner = (.ineligible, w.requests r) := by
      rw [reserveDelivery, h.reserved_eq hc, if_neg (by simp [Position.reserved]), hineligible]
      rfl
    simp only [World.control, hreserve] at ht
    cases ht
    exact ⟨le_rfl, rfl, rfl⟩
  | deliver =>
    change (if _ then _ else if _ then _ else _) = _ at ht
    split at ht
    · cases ht
    · split at ht
      · cases ht
        exact ⟨Nat.le_succ 3, rfl, rfl⟩
      · cases ht
        exact ⟨le_rfl, rfl, rfl⟩
  | interrupting =>
    simp only [World.control, tryInterrupt, hineligible] at ht
    cases ht
    exact ⟨le_rfl, rfl, rfl⟩
  | retire =>
    cases ht
    exact ⟨le_rfl, rfl, rfl⟩

/-- A stub does not touch the controller. -/
theorem work_controller {a : Answer} (ht : w.work a = some (some u)) :
    u.controller = w.controller := by
  have hlock : ∀ {runtime : Runtime} {k : Code}, w.lock runtime k = some (some u) →
      u.controller = w.controller := by
    intro runtime k hl
    unfold World.lock at hl
    split at hl <;> cases hl
    rfl
  unfold World.work at ht
  split at ht
  · cases ht
  · cases ht
    rfl
  · cases ht
    rfl
  · split at ht <;> cases ht
    rfl
  · cases ht
    rfl
  · obtain ⟨runtime, -, hl⟩ := Option.bind_eq_some_iff.mp ht
    exact hlock hl
  · obtain ⟨⟨o, k, es⟩, -, rfl⟩ := Option.map_eq_some_iff.mp (Option.some.inj ht)
    rfl
  · cases ht
    rfl

theorem controls_of_manage {l : Label} {t : Option World} (ht : w.manage l = some t) :
    l.controls = false := by
  cases l with
  | control => cases ht
  | _ => rfl

/-- Only a new request gets a controller. -/
theorem manage_controller {l : Label} (hl : l ≠ .spawn) (ht : w.manage l = some (some u)) :
    u.controller = w.controller := by
  cases l with
  | take | give | cancel | work | control => cases ht
  | spawn => exact absurd rfl hl
  | start stub =>
    obtain ⟨y, -, he⟩ := Option.map_eq_some_iff.mp ht
    cases he
    rfl
  | create | stop | join =>
    simp only [World.manage] at ht
    split at ht <;> cases ht <;> rfl
  | install =>
    simp only [World.manage] at ht
    split at ht
    · split at ht <;> cases ht <;> rfl
    · cases ht
  | uninstall =>
    simp only [World.manage] at ht
    split at ht
    · split at ht <;> cases ht <;> rfl
    · split at ht <;> cases ht <;> rfl
    · cases ht
  | dispose =>
    simp only [World.manage] at ht
    split at ht
    · obtain ⟨q, -, rfl⟩ := Option.map_eq_some_iff.mp (Option.some.inj ht)
      rfl
    · cases ht

/-- The library waits for the end of the controller. -/
theorem controller_none_of_manage {l : Label} (hs : w.session = .stopping r)
    (ht : w.manage l = some (some u)) : w.controller = none := by
  cases l with
  | take | give | cancel | work | control => cases ht
  | create | install | spawn | stop | uninstall | dispose =>
    simp only [World.manage, hs] at ht
    cases ht
  | start stub =>
    simp only [World.manage, hs] at ht
    cases ht
  | join =>
    simp only [World.manage, hs] at ht
    split at ht
    · assumption
    · cases ht

/-- What is kept from the stop on, and what each step of the controller uses up. -/
def StoppingRun (s : Option World) : Prop := ∃ w, s = some w ∧ Inv w ∧ Stopping w

theorem Stopping.step (h : Inv w) (hs : Stopping w) {l : Label} (hl : l ≠ .spawn)
    (ht : w.step l = some (some u)) :
    Stopping u ∧ u.untilExit + l.controls.toNat ≤ w.untilExit := by
  -- without a controller there is none until the next request
  have hkept : l.controls = false → u.controller = w.controller →
      u.untilExit + l.controls.toNat ≤ w.untilExit := by
    intro hc he
    rw [World.untilExit, World.untilExit, he, hc]
    exact le_rfl
  cases World.stepped ht with
  | take | give => exact ⟨hs, hkept rfl rfl⟩
  | cancel x =>
    unfold World.cancel
    split
    · exact ⟨hs, le_rfl⟩
    · exact ⟨hs, le_rfl⟩
  | work a hwork =>
    have hcontroller := work_controller hwork
    refine ⟨hs.elim (fun hc => .inl (hcontroller.trans hc)) fun ⟨_, hready⟩ => ?_,
      hkept rfl hcontroller⟩
    -- a worker that waits is in no stub
    unfold World.work at hwork
    rw [hready] at hwork
    cases hwork
  | @control r p _ hc _ hcontrol =>
    obtain hnone | ⟨⟨x, hx⟩, hready⟩ := hs
    · cases hc.symm.trans hnone
    · have hxr : x = r := by
        rcases h.controller.session r p hc with he | he
        · cases hx.symm.trans he
        · cases hx.symm.trans he
          rfl
      subst hxr
      obtain ⟨hrank, hworker, hsession⟩ := h.control_stopping hx hready hc hcontrol
      refine ⟨.inr ⟨⟨x, hsession.trans hx⟩, hworker.trans hready⟩, hrank.trans_eq ?_⟩
      rw [World.untilExit, hc]
      rfl
  | manage _ hmanage =>
    have hcontroller := manage_controller hl hmanage
    refine ⟨.inl (hcontroller.trans ?_), hkept (controls_of_manage hmanage) hcontroller⟩
    obtain hnone | ⟨⟨x, hx⟩, -⟩ := hs
    · exact hnone
    · exact controller_none_of_manage hx hmanage

theorem stopping_of_stop (ht : w.step .stop = some (some u)) : Stopping u := by
  cases World.stepped ht with
  | manage hm hmanage =>
    simp only [World.manage] at hmanage
    split at hmanage <;> cases hmanage <;> exact .inr ⟨⟨_, rfl⟩, hm.ready⟩

theorem Managed.step (hm : Managed w) {l : Label} (hl : w.step l =
    if w.runtime = some .worker ∧ w.waits .worker = true then w.manage l else none) :
    w.step l = w.manage l :=
  hl.trans (if_pos ⟨hm.runtime, by rw [World.waits, hm.ready]⟩)

theorem Inv.uninstall_step (h : Inv w) (hm : Managed w) (hs : w.session = .joined r) :
    ∃ u, w.step .uninstall = some (some u) ∧ Inv u ∧ Managed u ∧ u.session = .detached r := by
  refine ⟨_, ?_, h.uninstalled hm hs rfl, ⟨hm.ready, hm.runtime⟩, rfl⟩
  rw [hm.step rfl]
  simp only [World.manage, hs, h.uninstall_eq hm hs]
  rfl

theorem Inv.dispose_step (h : Inv w) (hm : Managed w) (hs : w.session = .detached r) :
    ∃ u, w.step .dispose = some (some u) ∧ Inv u ∧ u.session = .free := by
  obtain ⟨q, hq, hinv⟩ := h.dispose hm hs
  refine ⟨_, ?_, hinv, rfl⟩
  rw [hm.step rfl]
  simp only [World.manage, hs, hq]
  rfl

/-- The joined request is uninstalled and disposed of. -/
theorem Inv.recovers (h : Inv w) (hm : Managed w) (hs : w.session = .stopping r)
    (hc : w.controller = none) : ∃ v, system.exec (some w) [.join, .uninstall, .dispose] =
      some (some v) ∧ v.session = .free ∧ v.owner.active = none := by
  have hjoin : w.step .join = some (some { w with session := .joined r }) := by
    rw [hm.step rfl]
    simp only [World.manage, hs, hc]
  obtain ⟨u, hu, hinv, hmanaged, hdetached⟩ :=
    (h.join hm hs hc).uninstall_step ⟨hm.ready, hm.runtime⟩ rfl
  obtain ⟨v, hv, hinv', hfree⟩ := hinv.dispose_step hmanaged hdetached
  refine ⟨v, ?_, hfree, ?_⟩
  · rw [System.exec_cons, show system.step (some w) .join = _ from hjoin, Option.bind_some,
      System.exec_cons, show system.step (some _) .uninstall = _ from hu, Option.bind_some,
      System.exec_cons, show system.step (some u) .dispose = _ from hv, Option.bind_some]
    rfl
  · rw [hinv'.session.active, hfree]
    rfl

/-- **A controller that has been told to stop ends** after at most four of its steps, in none of
which it is blocked; nothing is delivered any more. The request is then joined, uninstalled and
disposed of, and the connection is free for the next one. -/
theorem controller_retires (h : system.Reachable Guard.free (some w))
    (hstop : system.step (some w) .stop = some (some u)) {ls : List Label} {t : World}
    (hr : system.Run (fun _ l => l ≠ .spawn) (some u) ls (some t)) :
    ls.countP Label.controls ≤ 4 ∧
    (t.controller.isSome = true → t.runtime = some .controller →
      ∃ v, system.step (some t) .control = some (some v)) ∧
    (∀ r, t.session = .stopping r → t.controller = none → t.runtime = some .worker →
      t.waits .worker = true → ∃ v, system.exec (some t) [.join, .uninstall, .dispose] =
        some (some v) ∧ v.session = .free ∧ v.owner.active = none) := by
  obtain ⟨w', hw, hinv⟩ := inv_of_reachable h
  cases hw
  change w.step .stop = some (some u) at hstop
  obtain ⟨u', hu, hinv'⟩ := hinv.step hstop
  cases hu
  have hstart : StoppingRun (some u) := ⟨u, rfl, hinv', stopping_of_stop hstop⟩
  have hstep : ∀ s l s', StoppingRun s → l ≠ .spawn → system.step s l = some s' →
      StoppingRun s' ∧ (s'.map World.untilExit).getD 0 + 0 + l.controls.toNat ≤
        (s.map World.untilExit).getD 0 + 0 := by
    rintro s l s' ⟨x, rfl, hx, hs⟩ hl ht
    obtain ⟨y, rfl, hy⟩ := hx.step ht
    obtain ⟨hs', hrank⟩ := hs.step hx hl ht
    exact ⟨⟨y, rfl, hy, hs'⟩, hrank⟩
  have hend := hr.induction (fun s l s' hs hl ht => (hstep s l s' hs hl ht).1) hstart
  -- nothing pays for further steps after the stop
  have hrank := hr.rank_le StoppingRun (fun s => (s.map World.untilExit).getD 0) (fun _ => 0)
    Label.controls (fun s l s' hs hl ht => (hstep s l s' hs hl ht).1)
    (fun s l s' hs hl ht => (hstep s l s' hs hl ht).2) hstart
  obtain ⟨t', ht, hinvt, -⟩ := hend
  cases ht
  refine ⟨?_, fun hsome hruntime => ?_, fun r hs hc hruntime hwaits => ?_⟩
  · have hle := u.untilExit_le
    change t.untilExit + 0 + ls.countP Label.controls ≤ u.untilExit + 0 at hrank
    omega
  · obtain ⟨⟨r, p⟩, hc⟩ := Option.isSome_iff_exists.mp hsome
    obtain ⟨v, hv, -, -⟩ := hinvt.control_enabled hc hruntime
    exact ⟨v, hv⟩
  · exact hinvt.recovers ⟨worker_ready hwaits, hruntime⟩ hs hc

/-- The controller has ended, and the worker has the runtime. -/
def sampleExit : List Label := [.give .worker, .take .controller, .control, .take .worker]

theorem controller_retires_sampleReturn : ∃ v, system.exec
    (some (worldAfter (sampleReturn ++ [.stop] ++ sampleExit))) [.join, .uninstall, .dispose] =
      some (some v) ∧ v.session = .free ∧ v.owner.active = none := by
  have hrun : system.Run (fun _ l => l ≠ .spawn) (some (worldAfter (sampleReturn ++ [.stop])))
      sampleExit (some (worldAfter (sampleReturn ++ [.stop] ++ sampleExit))) :=
    System.run_of_execWithin (g := fun _ l => decide (l ≠ .spawn))
      (fun _ _ hl => of_decide_eq_true hl) rfl
  exact (controller_retires reachable_sampleReturn rfl hrun).2.2 0 rfl rfl rfl rfl

end DuckdbMl.Delivery
