import DuckdbMl.Delivery.Steps

/-!
# The steps between the stubs

Between two stubs the worker has no section open and its owner is at rest, so that what the library
does with a request finds the guard free. With it every step of the system keeps the invariant.

## Main results

* `Inv.manage`: no step of the library fails, and each keeps the invariant
* `Inv.step`, `inv_of_reachable`: the invariant of all runs
-/

namespace DuckdbMl.Delivery

open Transition (Legal System Guard)

variable {w u : World} {r : ℕ} {t : Option World}

/-- The worker is between two stubs, and has the runtime. -/
structure Managed (w : World) : Prop where
  ready : w.worker = .ready
  runtime : w.runtime = some .worker

theorem worker_ready (h : w.waits .worker = true) : w.worker = .ready := by
  unfold World.waits at h
  cases hw : w.worker with
  | ready => rfl
  | running locked k =>
    rw [hw] at h
    cases h
  | calling c k =>
    rw [hw] at h
    cases h

theorem WorkerOk.at_rest (h : WorkerOk w) (hready : w.worker = .ready) :
    AtShape w (.rest (w.session = .closed)) := by
  unfold WorkerOk at h
  rw [hready] at h
  exact h

theorem workerOk_ready (hready : w.worker = .ready)
    (h : AtShape w (.rest (w.session = .closed))) : WorkerOk w := by
  rw [WorkerOk, hready]
  exact h

/-- No thread is in a section between two stubs. -/
theorem Inv.guard_free (h : Inv w) (hm : Managed w) : w.guard = none := by
  refine h.guard.free (by rw [hm.ready]; rfl) fun _ _ => h.controller.not_locked ?_
  rw [hm.runtime]
  exact fun he => by cases he

theorem Inv.inside_none (h : Inv w) (hm : Managed w) : inside w.log = none := by
  rw [h.log.inside, hm.ready]
  rfl

theorem Inv.window_none (h : Inv w) (hm : Managed w) : window w.log = none :=
  (h.worker.at_rest hm.ready).window

/-- The owner is at rest between two stubs. -/
theorem Inv.owner_rest (h : Inv w) (hm : Managed w) :
    w.owner.foreignActive = false ∧ w.owner.cleanupDepth = 0 ∧
      w.owner.closing = decide (w.session = .closed) := by
  have ho := (h.worker.at_rest hm.ready).owner
  exact ⟨ho.foreign, ho.depth, ho.closing⟩

/-- A session without a controller. -/
theorem Inv.no_controller (h : Inv w)
    (hs : ∀ r, w.session ≠ .leased r ∧ w.session ≠ .stopping r) : w.controller = none := by
  rcases hc : w.controller with _ | ⟨r, p⟩
  · rfl
  · exact ((h.controller.session r p hc).elim (hs r).1 (hs r).2).elim

theorem Inv.not_reserved (h : Inv w) (hc : w.controller = none) (x : ℕ) :
    (w.requests x).reserved = false := by
  refine Bool.eq_false_iff.mpr fun he => ?_
  obtain ⟨p, hp, -⟩ := (h.controller.reserved x).mp he
  cases hc.symm.trans hp

/-- Without a controller nothing is reserved, and no controller has the guard. -/
theorem ControllerOk.of_none (hc : w.controller = none) (hs : ∀ x, w.session ≠ .leased x)
    (hr : ∀ x, (w.requests x).reserved = false) : ControllerOk w := by
  refine ⟨fun r p hp => ?_, fun r hl => absurd hl (hs r), fun r => ?_, fun r p hp => ?_⟩
  · cases hc.symm.trans hp
  · rw [hr r, hc]
    exact iff_of_false Bool.false_ne_true fun ⟨p, hp, _⟩ => by cases hp
  · cases hc.symm.trans hp

/-- The guard is free, and nobody is in a section. -/
theorem GuardOk.of_free (hg : w.guard = none) (hworker : w.worker.locked = false)
    (hc : ∀ r p, w.controller = some (r, p) → p.locked = false) : GuardOk w := by
  refine ⟨?_, ?_, ?_⟩
  · rw [hg, hworker]
    exact iff_of_false (fun he => by cases he) Bool.false_ne_true
  · rw [hg]
    refine iff_of_false (fun he => by cases he) fun ⟨r, p, hp, hl⟩ => ?_
    exact Bool.false_ne_true ((hc r p hp).symm.trans hl)
  · rw [hg]
    exact fun he => by cases he

theorem LogOk.of_eq (h : LogOk w) (hlog : u.log = w.log) (hactive : u.owner.active = w.owner.active)
    (hworker : u.worker.inside = w.worker.inside)
    (hcancelled : ∀ r, (u.requests r).cancelled = (w.requests r).cancelled) : LogOk u := by
  obtain ⟨hc, hi, hm, hl⟩ := h
  refine ⟨?_, ?_, fun r => ?_, ?_⟩
  · rw [hlog, hactive]
    exact hc
  · rw [hlog, hworker]
    exact hi
  · rw [hlog, hcancelled]
    exact hm r
  · rw [hlog]
    exact hl

/-- The session goes on with the same requests, bound as before. -/
theorem SessionOk.move (h : SessionOk w) (hactive : u.owner.active = w.owner.active)
    (hrequests : u.requests = w.requests) (hcreated : w.created ≤ u.created)
    (hsession : u.session.active = w.session.active)
    (hprepared : ∀ r, u.session = .prepared r → r < u.created ∧ w.created ≤ r)
    (hstop : ∀ r, u.session ≠ .stopping r)
    (hgoing : ∀ r, u.session.going = some r → w.session.going = some r ∨ w.created ≤ r)
    (hdetached : ∀ r, u.session = .detached r → r < u.created) : SessionOk u := by
  obtain ⟨hfresh, hac, hi, hb, ha, -, -, hg, -⟩ := h
  refine ⟨fun r hr => ?_, hactive.trans (hac.trans hsession.symm), ?_, ?_, ?_, fun r hr => ?_,
    fun r hr => absurd hr (hstop r), fun r hr => ?_, hdetached⟩
  · rw [hrequests]
    exact hfresh r (hcreated.trans hr)
  · rw [hrequests, hsession]
    exact hi
  · rw [hrequests, hsession]
    exact hb
  · rw [hrequests, hsession]
    exact ha
  · -- a prepared request has just been created
    obtain ⟨hlt, hge⟩ := hprepared r hr
    rw [hrequests, hfresh r hge]
    exact ⟨hlt, rfl, rfl⟩
  · rw [hrequests]
    -- a request whose controller goes on was going before, or has just been created
    rcases hgoing r hr with hw | hge
    · exact hg r hw
    · rw [hfresh r hge]
      rfl

/-- What a change of one request leaves of a session. -/
theorem SessionOk.set (h : SessionOk w) {q : Request} (hr : r < w.created)
    (hactive : u.owner.active = u.session.active)
    (hrequests : u.requests = Function.update w.requests r q) (hcreated : u.created = w.created)
    (hq : (q.state = .installed ↔ u.session.active = some r) ∧
      (q.owner = true ↔ u.session.active = some r) ∧
      (q.disposed = true → u.session.active ≠ some r))
    (hothers : ∀ x, x ≠ r → (w.session.active = some x ↔ u.session.active = some x))
    (hprepared : ∀ x, u.session ≠ .prepared x)
    (hstop : ∀ x, u.session = .stopping x → x = r ∧ q.stop = true)
    (hgoing : ∀ x, u.session.going = some x → x = r ∧ q.stop = false)
    (hdetached : ∀ x, u.session = .detached x → x = r) : SessionOk u := by
  have hself : u.requests r = q := by rw [hrequests, Function.update_self]
  have hne : ∀ {x}, x ≠ r → u.requests x = w.requests x := fun hx => by
    rw [hrequests, Function.update_of_ne hx]
  refine ⟨fun x hx => ?_, hactive, fun x => ?_, fun x => ?_, fun x => ?_,
    fun x hx => absurd hx (hprepared x), fun x hx => ?_, fun x hx => ?_, fun x hx => ?_⟩
  · rw [hcreated] at hx
    rw [hne (hr.trans_le hx).ne']
    exact h.fresh x hx
  -- the three equivalences hold of `r` by `hq`, and of the others as before
  · rcases eq_or_ne x r with rfl | hx
    · rw [hself]
      exact hq.1
    · rw [hne hx, h.installed x]
      exact hothers x hx
  · rcases eq_or_ne x r with rfl | hx
    · rw [hself]
      exact hq.2.1
    · rw [hne hx, h.bound x]
      exact hothers x hx
  · rcases eq_or_ne x r with rfl | hx
    · rw [hself]
      exact hq.2.2
    · rw [hne hx]
      exact fun hd he => h.alive x hd ((hothers x hx).mpr he)
  -- of the changed request alone it may be new that it is stopped, goes on or is detached
  · obtain ⟨rfl, hs⟩ := hstop x hx
    rw [hself]
    exact hs
  · obtain ⟨rfl, hs⟩ := hgoing x hx
    rw [hself]
    exact hs
  · rw [hdetached x hx, hcreated]
    exact hr

/-! ### A request of the worker -/

/-- What the library changes between two stubs, as long as the connection is not closed. -/
structure Between (w u : World) : Prop where
  worker : u.worker = w.worker
  guard : u.guard = w.guard
  runtime : u.runtime = w.runtime
  owner : ∃ a, u.owner = { w.owner with active := a }
  closed : w.session ≠ .closed ∧ u.session ≠ .closed
  window : window u.log = window w.log

theorem Inv.between (h : Inv w) (hm : Managed w) (hu : Between w u) (hsession : SessionOk u)
    (hcontroller : ControllerOk u) (hlog : LogOk u) : Inv u := by
  have hready : u.worker = .ready := hu.worker.trans hm.ready
  refine ⟨workerOk_ready hready ?_, hsession, hcontroller, ?_, hlog⟩
  · have hrest := h.worker.at_rest hm.ready
    rw [decide_eq_false hu.closed.1] at hrest
    rw [decide_eq_false hu.closed.2]
    obtain ⟨a, ha⟩ := hu.owner
    refine ⟨hrest.ok, ?_, hu.window.trans hrest.window⟩
    rw [ha]
    -- in no admitted call the phase does not depend on the request
    exact ⟨hrest.owner.foreign, hrest.owner.depth, hrest.owner.closing, hrest.owner.phase.trans
      ((if_neg fun he => absurd he.1 (not_user rfl)).trans
        (if_neg fun he => absurd he.1 (not_user rfl)).symm)⟩
  · refine .of_free (hu.guard.trans (h.guard_free hm)) (by rw [hready]; rfl) fun r p hc => ?_
    refine hcontroller.not_locked ?_ hc
    rw [hu.runtime, hm.runtime]
    exact fun he => by cases he

theorem Inv.create (h : Inv w) (hm : Managed w) (hs : w.session = .free)
    (hu : u = { w with
      requests := Function.update w.requests w.created Request.created
      created := w.created + 1
      session := .prepared w.created }) : Inv u := by
  -- the new request is what every request that has not been created is taken to be
  have hrequests : u.requests = w.requests := by
    rw [hu]
    exact Function.update_eq_self_iff.mpr (h.session.fresh _ le_rfl).symm
  have hc : w.controller = none := h.no_controller fun r => by rw [hs]; simp
  have hactive : u.session.active = w.session.active := by rw [hu, hs]; rfl
  have hclosed : w.session ≠ .closed ∧ u.session ≠ .closed := by rw [hu, hs]; simp
  refine h.between hm ⟨by rw [hu], by rw [hu], by rw [hu], ⟨_, by rw [hu]⟩, hclosed, by rw [hu]⟩
    ?_ ?_ ?_
  -- only that the request is prepared is new
  · refine h.session.move (by rw [hu]) hrequests (by rw [hu]; exact Nat.le_succ _) hactive
      (fun r hr => ?_) (fun r hr => ?_) (fun r hr => ?_) fun r hr => ?_
    · rw [hu] at hr ⊢
      cases hr
      exact ⟨Nat.lt_succ_self _, le_rfl⟩
    · rw [hu] at hr
      cases hr
    · rw [hu] at hr
      cases hr
      exact .inr le_rfl
    · rw [hu] at hr
      cases hr
  · refine .of_none (by rw [hu]; exact hc) (fun x => by rw [hu]; simp) fun x => ?_
    rw [hrequests]
    exact h.not_reserved hc x
  · exact h.log.of_eq (by rw [hu]) (by rw [hu]) (by rw [hu]) fun x => by rw [hrequests]

/-- The request is still fresh, and the guard free: the only failure is a lost connection. -/
theorem Inv.install_eq (h : Inv w) (hm : Managed w) (hs : w.session = .prepared r) :
    install w.guard.isSome r (w.requests r) w.owner =
      if w.owner.connected then
        (.installed, { w.requests r with state := .installed, owner := true },
          { w.owner with active := some r })
      else (.connectionClosed, w.requests r, w.owner) := by
  obtain ⟨-, hfresh, halive⟩ := h.session.prepared r hs
  obtain ⟨hforeign, hdepth, hclosing⟩ := h.owner_rest hm
  have hactive : ¬ w.owner.active.isSome = true := by
    rw [h.session.active, hs]
    exact Bool.false_ne_true
  rw [decide_eq_false (by rw [hs]; simp)] at hclosing
  unfold install
  rw [if_neg (by rw [halive, hfresh]; simp), if_neg (by rw [h.guard_free hm]; simp),
    if_neg (by rw [hclosing]; simp), if_neg (by rw [hforeign, hdepth]; simp)]
  rw [if_neg hactive]
  by_cases hc : w.owner.connected = true
  · rw [if_neg (by rw [hc]; simp), if_pos hc]
  · rw [if_pos (by simpa using hc), if_neg hc]

theorem cancelled_update {q : Request} (hrequests : u.requests = Function.update w.requests r q)
    (hq : q.cancelled = (w.requests r).cancelled) (x : ℕ) :
    (u.requests x).cancelled = (w.requests x).cancelled := by
  rw [hrequests]
  rcases eq_or_ne x r with rfl | hx
  · rw [Function.update_self]
    exact hq
  · rw [Function.update_of_ne hx]

theorem reserved_update {q : Request} (hrequests : u.requests = Function.update w.requests r q)
    (hq : q.reserved = (w.requests r).reserved) (x : ℕ) :
    (u.requests x).reserved = (w.requests x).reserved := by
  rw [hrequests]
  rcases eq_or_ne x r with rfl | hx
  · rw [Function.update_self]
    exact hq
  · rw [Function.update_of_ne hx]

theorem Inv.installed (h : Inv w) (hm : Managed w) (hs : w.session = .prepared r)
    (hsession : u.session = .installed r) (hcontroller : u.controller = w.controller)
    (howner : u.owner = { w.owner with active := some r })
    (hrequests : u.requests = Function.update w.requests r
      { w.requests r with state := .installed, owner := true })
    (hcreated : u.created = w.created) (hworker : u.worker = w.worker) (hguard : u.guard = w.guard)
    (hruntime : u.runtime = w.runtime) (hlog : u.log = .installed r :: w.log) : Inv u := by
  obtain ⟨hlt, -, halive⟩ := h.session.prepared r hs
  -- a prepared request has no controller yet, and no other one is installed
  have hc : w.controller = none := h.no_controller fun x => by rw [hs]; simp
  have hactive : w.owner.active = none := by
    rw [h.session.active, hs]
    rfl
  have hbound : u.session.active = some r := by rw [hsession]; rfl
  refine h.between hm ⟨hworker, hguard, hruntime, ⟨_, howner⟩, by rw [hs, hsession]; simp,
    by rw [hlog]; rfl⟩ ?_ ?_ ⟨?_, ?_, fun x => ?_, ?_⟩
  · refine h.session.set hlt (by rw [howner, hbound]) hrequests hcreated
      ⟨iff_of_true rfl hbound, iff_of_true rfl hbound, fun hd => ?_⟩ (fun x hx => ?_)
      (fun x hx => ?_) (fun x hx => ?_) (fun x hx => ?_) fun x hx => ?_
    -- it has not been disposed of
    · exact absurd (halive.symm.trans hd) Bool.false_ne_true
    · rw [hs, hbound]
      exact iff_of_false (fun he => by cases he) fun he => hx (Option.some.inj he).symm
    · rw [hsession] at hx
      cases hx
    · rw [hsession] at hx
      cases hx
    · rw [hsession] at hx
      cases hx
      exact ⟨rfl, h.session.going r (by rw [hs]; rfl)⟩
    · rw [hsession] at hx
      cases hx
  -- nothing is reserved without a controller
  · refine .of_none (hcontroller.trans hc) (fun x => by rw [hsession]; simp) fun x => ?_
    exact (reserved_update hrequests rfl x).trans (h.not_reserved hc x)
  · rw [hlog, howner]
    rfl
  · rw [hlog, hworker]
    exact h.log.inside
  · rw [hlog, cancelled_update hrequests rfl, ← h.log.cancelled x]
    exact cancelled_cons (by simp)
  -- the installation opens the window of the request in the log
  · rw [hlog]
    exact ⟨⟨h.log.current.trans hactive, h.window_none hm, h.inside_none hm⟩, h.log.legal⟩

theorem Inv.spawn (h : Inv w) (hm : Managed w) (hs : w.session = .installed r) :
    Inv { w with session := .leased r, controller := some (r, .test) } := by
  have hc : w.controller = none := h.no_controller fun x => by rw [hs]; simp
  refine h.between hm ⟨rfl, rfl, rfl, ⟨_, rfl⟩, by rw [hs]; simp, rfl⟩ ?_ ⟨?_, ?_, ?_, ?_⟩
    (h.log.of_eq rfl rfl rfl fun _ => rfl)
  · exact h.session.move rfl rfl le_rfl (by rw [hs]; rfl) (fun x hx => by cases hx)
      (fun x hx => by cases hx) (fun x hx => .inl (by rw [hs]; exact hx)) fun x hx => by cases hx
  · intro x p hx
    cases hx
    exact .inl rfl
  · intro x hx
    cases hx
    exact ⟨_, rfl⟩
  · intro x
    change (w.requests x).reserved = true ↔ _
    rw [h.not_reserved hc x]
    refine iff_of_false Bool.false_ne_true fun ⟨p, hp, hr⟩ => ?_
    cases hp
    cases hr
  · intro x p hx hl
    cases hx
    cases hl

theorem Inv.stop (h : Inv w) (hm : Managed w) (hactive : w.session.active = some r)
    (hu : u = { w with
      session := .stopping r
      requests := Function.update w.requests r { w.requests r with stop := true } })
    (hcontroller : ∀ x p, w.controller = some (x, p) → x = r) (hs : w.session ≠ .closed) :
    Inv u := by
  have hrequests : u.requests = Function.update w.requests r
      { w.requests r with stop := true } := by rw [hu]
  have hbound : u.session.active = some r := by rw [hu]; rfl
  refine h.between hm ⟨by rw [hu], by rw [hu], by rw [hu], ⟨_, by rw [hu]⟩, ⟨hs, by rw [hu]; simp⟩,
    by rw [hu]⟩ ?_ ⟨fun x p hx => ?_, fun x hx => ?_, fun x => ?_, fun x p hx => ?_⟩ ?_
  · refine h.session.set (h.session.lt_created hactive) ?_ hrequests (by rw [hu])
      ⟨?_, ?_, fun hd => ?_⟩ (fun x _ => by rw [hactive, hbound]) (fun x hx => ?_)
      (fun x hx => ?_) (fun x hx => ?_) fun x hx => ?_
    · rw [hbound, ← hactive, ← h.session.active, hu]
    -- the request stays installed and bound: only its controller is told to stop
    · exact iff_of_true ((h.session.installed r).mpr hactive) hbound
    · exact iff_of_true ((h.session.bound r).mpr hactive) hbound
    · exact absurd hactive (h.session.alive r hd)
    · rw [hu] at hx
      cases hx
    · rw [hu] at hx
      cases hx
      exact ⟨rfl, rfl⟩
    · rw [hu] at hx
      cases hx
    · rw [hu] at hx
      cases hx
  · rw [hu] at hx
    -- the one controller there may be is the request's own
    cases hcontroller x p hx
    rw [hu]
    exact .inr rfl
  · rw [hu] at hx
    cases hx
  · rw [reserved_update hrequests rfl x, hu]
    exact h.controller.reserved x
  · rw [hu] at hx ⊢
    exact h.controller.runtime x p hx
  · exact h.log.of_eq (by rw [hu]) (by rw [hu]) (by rw [hu]) (cancelled_update hrequests rfl)

theorem Inv.join (h : Inv w) (hm : Managed w) (hs : w.session = .stopping r)
    (hc : w.controller = none) : Inv { w with session := .joined r } := by
  refine h.between hm ⟨rfl, rfl, rfl, ⟨_, rfl⟩, by rw [hs]; simp, rfl⟩ ?_
    (.of_none hc (by simp) (h.not_reserved hc)) (h.log.of_eq rfl rfl rfl fun _ => rfl)
  exact h.session.move rfl rfl le_rfl (by rw [hs]; rfl) (fun x hx => by cases hx)
    (fun x hx => by cases hx) (fun x hx => by cases hx) fun x hx => by cases hx

/-- The joined request is uninstalled: its work is done, and nothing is reserved. -/
theorem Inv.uninstall_eq (h : Inv w) (hm : Managed w) (hs : w.session = .joined r) :
    uninstall w.guard.isSome r (w.requests r) w.owner =
      some (.uninstalled, { w.requests r with state := .detached, owner := false },
        { w.owner with active := none }) := by
  have hactive : w.session.active = some r := by rw [hs]; rfl
  have hc : w.controller = none := h.no_controller fun x => by rw [hs]; simp
  obtain ⟨hforeign, hdepth, -⟩ := h.owner_rest hm
  have halive := h.session.not_disposed hactive
  unfold uninstall
  rw [if_neg (by rw [halive, (h.session.installed r).mpr hactive]; simp),
    if_neg (by rw [h.guard_free hm]; simp), if_neg (by rw [hforeign, hdepth]; simp),
    if_neg (by rw [h.not_reserved hc]; simp), if_neg (by rw [h.session.active, hactive]; simp)]

theorem Inv.uninstalled (h : Inv w) (hm : Managed w) (hs : w.session = .joined r)
    (hu : u = { w with
      owner := { w.owner with active := none }
      session := .detached r
      requests := Function.update w.requests r
        { w.requests r with state := .detached, owner := false }
      log := .uninstalled r :: w.log }) : Inv u := by
  have hrequests : u.requests = Function.update w.requests r
      { w.requests r with state := .detached, owner := false } := by rw [hu]
  have hactive : w.session.active = some r := by rw [hs]; rfl
  have hfree : u.session.active = none := by rw [hu]; rfl
  -- its controller has been joined
  have hc : w.controller = none := h.no_controller fun x => by rw [hs]; simp
  refine h.between hm ⟨by rw [hu], by rw [hu], by rw [hu], ⟨_, by rw [hu]⟩, by rw [hs, hu]; simp,
    by rw [hu]; rfl⟩ ?_ ?_ ⟨by rw [hu]; rfl, ?_, fun x => ?_, ?_⟩
  · refine h.session.set (h.session.lt_created hactive) (by rw [hfree, hu]) hrequests (by rw [hu])
      ⟨?_, ?_, ?_⟩ (fun x hx => ?_) (fun x hx => ?_) (fun x hx => ?_) (fun x hx => ?_)
      fun x hx => ?_
    -- after it the connection has no request, and this one is neither installed nor bound
    · exact iff_of_false (fun he => by cases he) (by rw [hfree]; simp)
    · exact iff_of_false Bool.false_ne_true (by rw [hfree]; simp)
    · rw [hfree]
      exact fun _ he => by cases he
    · rw [hactive, hfree]
      exact iff_of_false (fun he => hx (Option.some.inj he).symm) fun he => by cases he
    · rw [hu] at hx
      cases hx
    · rw [hu] at hx
      cases hx
    · rw [hu] at hx
      cases hx
    · rw [hu] at hx
      cases hx
      rfl
  · refine .of_none (by rw [hu]; exact hc) (fun x => by rw [hu]; simp) fun x => ?_
    exact (reserved_update hrequests rfl x).trans (h.not_reserved hc x)
  · rw [hu]
    exact h.log.inside
  · rw [cancelled_update hrequests rfl, ← h.log.cancelled x, hu]
    exact cancelled_cons (by simp)
  · rw [hu]
    -- the log closes the window of the request that was the current one
    exact ⟨⟨h.log.current.trans (h.session.active.trans hactive), h.window_none hm,
      h.inside_none hm⟩, h.log.legal⟩

/-- A request that has not been installed is given up. -/
theorem Inv.discarded (h : Inv w) (hm : Managed w) (hs : w.session = .prepared r) :
    Inv { w with session := .detached r } := by
  have hc : w.controller = none := h.no_controller fun x => by rw [hs]; simp
  refine h.between hm ⟨rfl, rfl, rfl, ⟨_, rfl⟩, by rw [hs]; simp, rfl⟩ ?_
    (.of_none hc (by simp) (h.not_reserved hc)) (h.log.of_eq rfl rfl rfl fun _ => rfl)
  refine h.session.move rfl rfl le_rfl (by rw [hs]; rfl) (fun x hx => by cases hx)
    (fun x hx => by cases hx) (fun x hx => by cases hx) fun x hx => ?_
  cases hx
  exact (h.session.prepared r hs).1

theorem Inv.dispose (h : Inv w) (hm : Managed w) (hs : w.session = .detached r) :
    ∃ q, Delivery.dispose (w.requests r) = some q ∧
      Inv ({ w with session := .free }.setRequest r q) := by
  have hc : w.controller = none := h.no_controller fun x => by rw [hs]; simp
  have hnone : w.session.active = none := by rw [hs]; rfl
  -- a detached request is neither installed nor bound, as `dispose` asks
  have hstate : (w.requests r).state ≠ .installed := fun he => by
    cases hnone.symm.trans ((h.session.installed r).mp he)
  have howner : (w.requests r).owner ≠ true := fun he => by
    cases hnone.symm.trans ((h.session.bound r).mp he)
  have hdispose : ∃ d, Delivery.dispose (w.requests r) =
      some { w.requests r with disposed := d } := by
    unfold Delivery.dispose
    split
    case isTrue hd =>
      refine ⟨true, congrArg some ?_⟩
      rw [← hd]
    case isFalse => exact ⟨true, rfl⟩
  obtain ⟨d, hd⟩ := hdispose
  -- no controller has reserved it, before or after
  have hreserved := reserved_update (u := { w with session := .free }.setRequest r
    { w.requests r with disposed := d }) (q := { w.requests r with disposed := d }) (r := r) rfl rfl
  refine ⟨_, hd, h.between hm ⟨rfl, rfl, rfl, ⟨_, rfl⟩, ⟨by rw [hs]; simp, fun he => by cases he⟩,
    rfl⟩ ?_ (.of_none hc (fun x he => by cases he) fun x =>
      (hreserved x).trans (h.not_reserved hc x))
    (h.log.of_eq rfl rfl rfl
      (cancelled_update (q := { w.requests r with disposed := d }) (r := r) rfl rfl))⟩
  refine h.session.set (h.session.detached r hs) (h.session.active.trans hnone) rfl rfl
    ⟨?_, ?_, fun _ he => by cases he⟩ (fun x _ => by rw [hnone]; rfl) (fun x hx => by cases hx)
    (fun x hx => by cases hx) (fun x hx => by cases hx) fun x hx => by cases hx
  · exact iff_of_false hstate fun he => by cases he
  · exact iff_of_false howner fun he => by cases he

/-! ### The start of a stub -/

/-- A connection is closed by a stub that closes it, and only quiet stubs are run on it then. -/
theorem Session.start_spec {x y : Session} {stub : Stub} (h : x.start stub = some y) :
    (x = .closed → stub.quiet = true) ∧
      decide (y = .closed) = (decide (x = .closed) || stub.closes) ∧
        (y = x ∨ x = .free ∧ y = .closed) := by
  unfold Session.start at h
  cases x with
  -- in between the sections of a request no stub is started
  | prepared r | installed r | stopping r | detached r => cases h
  | free =>
    cases h
    refine ⟨(fun he => by cases he), ?_⟩
    cases stub.closes
    · exact ⟨rfl, .inl rfl⟩
    · exact ⟨rfl, .inr ⟨rfl, rfl⟩⟩
  -- under a request no stub closes the connection
  | leased r | joined r =>
    cases hc : stub.closes
    · rw [hc] at h
      cases h
      exact ⟨(fun he => by cases he), rfl, .inl rfl⟩
    · rw [hc] at h
      cases h
  -- on a closed connection only quiet stubs are run
  | closed =>
    cases hq : stub.quiet
    · rw [hq] at h
      cases h
    · rw [hq] at h
      cases h
      exact ⟨fun _ => rfl, rfl, .inl rfl⟩

theorem SessionOk.started (h : SessionOk w) {y : Session} {k : Code}
    (hy : y = w.session ∨ w.session = .free ∧ y = .closed) :
    SessionOk { w with session := y, worker := .running false k } := by
  rcases hy with rfl | ⟨hs, rfl⟩
  · exact h.of_eq rfl rfl rfl rfl
  · exact h.move rfl rfl le_rfl (by rw [hs]; rfl) (fun x hx => by cases hx)
      (fun x hx => by cases hx) (fun x hx => by cases hx) fun x hx => by cases hx

theorem ControllerOk.started (h : ControllerOk w) {y : Session} {k : Code}
    (hy : y = w.session ∨ w.session = .free ∧ y = .closed) :
    ControllerOk { w with session := y, worker := .running false k } := by
  refine ⟨fun r p hc => ?_, fun r hr => ?_, h.reserved, h.runtime⟩
  · rcases hy with rfl | ⟨hs, -⟩
    · exact h.session r p hc
    · -- there is no controller without a request
      have hr := h.session r p hc
      rw [hs] at hr
      rcases hr with he | he <;> cases he
  · rcases hy with rfl | ⟨-, rfl⟩
    · exact h.leased r hr
    · cases hr

/-- **A stub is started** at rest, and is balanced. -/
theorem Inv.start (h : Inv w) (hm : Managed w) {stub : Stub} {y : Session}
    (hy : w.session.start stub = some y) :
    Inv { w with session := y, worker := .running false stub.code } := by
  obtain ⟨hquiet, hclosed, hsession⟩ := Session.start_spec hy
  have hrest := h.worker.at_rest hm.ready
  have hfits := stub.fits fun hb => hquiet (of_decide_eq_true hb)
  refine ⟨?_, h.session.started hsession, h.controller.started hsession, ?_,
    h.log.of_eq rfl rfl (by rw [hm.ready]; rfl) fun _ => rfl⟩
  · refine workerOk_running (s := Shape.rest (w.session = .closed))
      ⟨⟨hrest.ok, hrest.owner, hrest.window⟩, iff_of_true hm.runtime rfl⟩ rfl ?_
    change stub.code.Fits (decide (y = .closed)) _
    rw [hclosed]
    exact hfits
  · refine .of_free (h.guard_free hm) rfl fun r p hc => h.controller.not_locked ?_ hc
    rw [hm.runtime]
    exact fun he => by cases he

/-- **The library keeps the invariant**, and none of its assertions fails. -/
theorem Inv.manage (h : Inv w) (hm : Managed w) {l : Label} (ht : w.manage l = some t) :
    ∃ u, t = some u ∧ Inv u := by
  cases l with
  | take x | give x | cancel r | work a | control => cases ht
  | create =>
    simp only [World.manage] at ht
    split at ht
    case h_1 hs =>
      cases ht
      exact ⟨_, rfl, h.create hm hs rfl⟩
    case h_2 => cases ht
  | install =>
    simp only [World.manage] at ht
    split at ht
    case h_1 r hs =>
      rw [h.install_eq hm hs] at ht
      by_cases hc : w.owner.connected = true
      · rw [if_pos hc] at ht
        cases ht
        exact ⟨_, rfl, h.installed hm hs rfl rfl rfl rfl rfl rfl rfl rfl rfl⟩
      · rw [if_neg hc] at ht
        cases ht
        exact ⟨_, rfl, h⟩
    case h_2 => cases ht
  | spawn =>
    simp only [World.manage] at ht
    split at ht
    case h_1 r hs =>
      cases ht
      exact ⟨_, rfl, h.spawn hm hs⟩
    case h_2 => cases ht
  | start stub =>
    obtain ⟨y, hy, rfl⟩ := Option.map_eq_some_iff.mp ht
    exact ⟨_, rfl, h.start hm hy⟩
  | stop =>
    simp only [World.manage] at ht
    split at ht
    case h_1 r hs =>
      -- the controller has not been started
      cases ht
      have hc : w.controller = none := h.no_controller fun x => by rw [hs]; simp
      exact ⟨_, rfl, h.stop hm (by rw [hs]; rfl) rfl (fun x p hx => by cases hc.symm.trans hx)
        (by rw [hs]; simp)⟩
    case h_2 r hs =>
      cases ht
      refine ⟨_, rfl, h.stop hm (by rw [hs]; rfl) rfl (fun x p hx => ?_) (by rw [hs]; simp)⟩
      have hx := h.controller.session x p hx
      rw [hs] at hx
      rcases hx with he | he <;> cases he
      rfl
    case h_3 => cases ht
  | join =>
    simp only [World.manage] at ht
    split at ht
    case h_1 r hs hc =>
      cases ht
      exact ⟨_, rfl, h.join hm hs hc⟩
    case h_2 => cases ht
  | uninstall =>
    cases hs : w.session with
    | free | installed r | leased r | stopping r | detached r | closed =>
      unfold World.manage at ht
      rw [hs] at ht
      cases ht
    | joined r =>
      simp only [World.manage, hs, h.uninstall_eq hm hs] at ht
      cases ht
      exact ⟨_, rfl, h.uninstalled hm hs rfl⟩
    | prepared r =>
      -- it has never been installed, so there is nothing to take back
      have hnone : uninstall w.guard.isSome r (w.requests r) w.owner =
          some (.notInstalled, w.requests r, w.owner) := by
        unfold uninstall
        exact if_pos (by rw [(h.session.prepared r hs).2.1]; simp)
      simp only [World.manage, hs, hnone] at ht
      cases ht
      exact ⟨_, rfl, h.discarded hm hs⟩
  | dispose =>
    simp only [World.manage] at ht
    split at ht
    case h_1 r hs =>
      obtain ⟨q, hq, hu⟩ := h.dispose hm hs
      rw [hq] at ht
      cases ht
      exact ⟨_, rfl, hu⟩
    case h_2 => cases ht

/-! ### The runtime and the cancellations -/

/-- The runtime is handed over by a thread that is in no section. -/
theorem Inv.handed (h : Inv w) {x : Option Thread}
    (hworker : w.worker = .ready ∨ (x = some .worker ↔ w.runtime = some .worker))
    (hcontroller : ∀ r p, w.controller = some (r, p) → p.locked = false) :
    Inv { w with runtime := x } := by
  refine ⟨?_, h.session.of_eq rfl rfl rfl rfl, ⟨h.controller.session, h.controller.leased,
    h.controller.reserved, fun r p hc hl => ?_⟩, h.guard.of_eq rfl rfl rfl,
    h.log.of_eq rfl rfl rfl fun _ => rfl⟩
  · rcases hworker with hready | hruntime
    · exact workerOk_ready hready ((h.worker.at_rest hready).of_eq rfl rfl)
    · exact h.worker.of_eq rfl rfl rfl rfl hruntime
  · exact absurd ((hcontroller r p hc).symm.trans hl) Bool.false_ne_true

theorem Inv.take (h : Inv w) {x : Thread} (hfree : w.runtime = none) (hx : w.waits x = true) :
    Inv { w with runtime := some x } := by
  refine h.handed ?_ fun r p hc => h.controller.not_locked (by rw [hfree]; simp) hc
  cases x with
  | worker => exact .inl (worker_ready hx)
  | controller | other =>
    rw [hfree]
    exact .inr (iff_of_false (fun he => by cases he) fun he => by cases he)

theorem Inv.give (h : Inv w) {x : Thread} (hruntime : w.runtime = some x)
    (hx : w.yields x = true) : Inv { w with runtime := none } := by
  refine h.handed ?_ fun r p hc => ?_
  · cases x with
    | worker => exact .inl (worker_ready hx)
    | controller | other =>
      rw [hruntime]
      exact .inr (iff_of_false (fun he => by cases he) fun he => by cases he)
  · cases x with
    | controller =>
      simp only [World.yields, hc] at hx
      cases p with
      | reserving | interrupting => cases hx
      | test | reserve | deliver | retire => rfl
    | worker | other => exact h.controller.not_locked (by rw [hruntime]; simp) hc

theorem Inv.cancel (h : Inv w) (hr : r < w.created) : Inv (w.cancel r) := by
  unfold World.cancel
  split
  · exact h
  · have hreserved := reserved_update (u := (w.setRequest r
      { w.requests r with cancelled := true }).record (.cancelled r))
      (q := { w.requests r with cancelled := true }) (r := r) rfl rfl
    have hsame : SameRequest (w.requests r) { w.requests r with cancelled := true } :=
      ⟨rfl, rfl, rfl, rfl⟩
    refine ⟨h.worker.of_eq rfl rfl rfl rfl .rfl, h.session.update hsame hr rfl rfl rfl rfl,
      h.controller.of_eq rfl rfl hreserved id, h.guard.of_eq rfl rfl rfl,
      ⟨h.log.current, h.log.inside, fun x => ?_, trivial, h.log.legal⟩⟩
    change Event.cancelled x ∈ Event.cancelled r :: w.log ↔
      (Function.update w.requests r { w.requests r with cancelled := true } x).cancelled = true
    rcases eq_or_ne x r with rfl | hx
    · rw [Function.update_self]
      exact iff_of_true List.mem_cons_self rfl
    · rw [Function.update_of_ne hx, ← h.log.cancelled x]
      exact ⟨fun he => (List.mem_cons.mp he).resolve_left fun hc => hx (Event.cancelled.inj hc),
        List.mem_cons_of_mem _⟩

/-! ### Every run -/

/-- What a step does, and where each thread is that takes it. -/
inductive Stepped (w : World) : Label → Option World → Prop
  | take (x : Thread) : w.runtime = none → w.waits x = true →
      Stepped w (.take x) (some { w with runtime := some x })
  | give (x : Thread) : w.runtime = some x → w.yields x = true →
      Stepped w (.give x) (some { w with runtime := none })
  | cancel (r : ℕ) : r < w.created → Stepped w (.cancel r) (some (w.cancel r))
  | work (a : Answer) {t : Option World} : w.work a = some t → Stepped w (.work a) t
  | control {r : ℕ} {p : Position} {t : Option World} : w.controller = some (r, p) →
      w.runtime = some .controller → w.control r p = t → Stepped w .control t
  | manage {l : Label} {t : Option World} : Managed w → w.manage l = some t → Stepped w l t

theorem World.stepped {l : Label} (ht : w.step l = some t) : Stepped w l t := by
  -- a section of the OCaml code runs with the runtime, outside a stub
  have hmanage : ∀ {x : Label}, (if w.runtime = some .worker ∧ w.waits .worker = true then
      w.manage x else none) = some t → Stepped w x t := by
    intro x ht
    split at ht
    case isTrue hm => exact .manage ⟨worker_ready hm.2, hm.1⟩ ht
    case isFalse => cases ht
  cases l with
  | take x =>
    change (if _ then _ else _) = _ at ht
    split at ht
    case isTrue hx =>
      cases ht
      exact .take x hx.1 hx.2
    case isFalse => cases ht
  | give x =>
    change (if _ then _ else _) = _ at ht
    split at ht
    case isTrue hx =>
      cases ht
      exact .give x hx.1 hx.2
    case isFalse => cases ht
  | cancel r =>
    change (if _ then _ else _) = _ at ht
    split at ht
    case isTrue hr =>
      cases ht
      exact .cancel r hr
    case isFalse => cases ht
  | work a => exact .work a ht
  | control =>
    simp only [World.step] at ht
    split at ht
    case h_1 r p hc =>
      split at ht
      case isTrue hruntime =>
        cases ht
        exact .control hc hruntime rfl
      case isFalse => cases ht
    case h_2 => cases ht
  | create | install | spawn | start | stop | join | uninstall | dispose => exact hmanage ht

/-- **No step fails, and each keeps the invariant.** -/
theorem Inv.step (h : Inv w) {l : Label} (ht : w.step l = some t) : ∃ u, t = some u ∧ Inv u := by
  cases World.stepped ht with
  | take x hfree hx => exact ⟨_, rfl, h.take hfree hx⟩
  | give x hruntime hx => exact ⟨_, rfl, h.give hruntime hx⟩
  | cancel r hr => exact ⟨_, rfl, h.cancel hr⟩
  | work a ht => exact h.work ht
  | control hc hruntime ht =>
    obtain ⟨u, hu, hinv⟩ := h.control hc hruntime
    exact ⟨u, ht.symm.trans hu, hinv⟩
  | manage hm ht => exact h.manage hm ht

theorem inv_initial : Inv World.initial where
  worker := ⟨fun hne => absurd rfl hne, ⟨rfl, rfl, rfl, rfl⟩, rfl⟩
  session :=
    { fresh := fun _ _ => rfl
      active := rfl
      installed := fun _ => iff_of_false (fun he => by cases he) fun he => by cases he
      bound := fun _ => iff_of_false Bool.false_ne_true fun he => by cases he
      alive := fun _ hd => absurd hd Bool.false_ne_true
      prepared := fun _ hs => by cases hs
      stop := fun _ hs => by cases hs
      going := fun _ hs => by cases hs
      detached := fun _ hs => by cases hs }
  controller := .of_none rfl (fun _ hs => by cases hs) fun _ => rfl
  guard := .of_free rfl rfl fun _ _ hc => by cases hc
  log := ⟨rfl, rfl, fun _ => iff_of_false (fun he => by cases he) Bool.false_ne_true, trivial⟩

/-- **The invariant of all runs**; in particular none of them fails. -/
theorem inv_of_reachable {s : Option World} (h : system.Reachable Guard.free s) :
    ∃ w, s = some w ∧ Inv w := by
  refine h.induction (I := fun s => ∃ w, s = some w ∧ Inv w) ?_ ?_
  · rintro s rfl
    exact ⟨_, rfl, inv_initial⟩
  · rintro s l t ⟨w, rfl, hw⟩ - ht
    exact hw.step ht

end DuckdbMl.Delivery
