import DuckdbMl.Delivery.Invariant

/-!
# The steps of the worker and of the controller

## Main results

* `Inv.work`: no step of a stub fails, and each keeps the invariant
* `Inv.control`: neither does a step of the controller
-/

namespace DuckdbMl.Delivery

open Transition (Legal)

variable {w u : World} {s : Shape} {k : Code} {r : ℕ} {t : Option World}

/-! ### The worker -/

/-- The worker goes on without the guard, at a point with the shape `s`. -/
theorem workerOk_running {s : Shape} (hs : InStub w s) (hworker : w.worker = .running false k)
    (hk : k.Fits (w.session = .closed) s) : WorkerOk w := by
  rw [WorkerOk, hworker]
  exact ⟨s, hs, hk, fun he => absurd he Bool.false_ne_true⟩

/-- What a stub does outside of the guard. -/
structure Outside (w u : World) : Prop where
  owner : u.owner = w.owner
  requests : u.requests = w.requests
  created : u.created = w.created
  session : u.session = w.session
  controller : u.controller = w.controller
  guard : u.guard = w.guard
  log : u.log = w.log

/-- Neither of them has the guard, and the controller waits for the runtime. -/
theorem Inv.outside (h : Inv w) (hu : Outside w u) (hworker : w.worker.locked = false)
    (hlocked : u.worker.locked = false) (hin : u.worker.inside = w.worker.inside)
    (hruntime : w.runtime ≠ some .controller) (hok : WorkerOk u) : Inv u where
  worker := hok
  session := h.session.of_eq (by rw [hu.owner]) hu.requests hu.created hu.session
  controller := h.controller.of_eq hu.controller hu.session (fun _ => by rw [hu.requests])
    fun he => absurd he hruntime
  guard := by
    -- nobody has the guard before the step, and nobody after it
    have hg := h.guard.free hworker fun _ _ => h.controller.not_locked hruntime
    refine ⟨?_, ?_, ?_⟩
    · rw [hu.guard, hg, hlocked]
      exact iff_of_false (fun he => by cases he) Bool.false_ne_true
    · rw [hu.guard, hu.controller]
      exact h.guard.controller
    · rw [hu.guard]
      exact h.guard.other
  log := by
    obtain ⟨hc, hi, hcancelled, hlegal⟩ := h.log
    refine ⟨?_, ?_, ?_, ?_⟩
    · rw [hu.log, hu.owner]
      exact hc
    · rw [hu.log, hin]
      exact hi
    · rw [hu.log, hu.requests]
      exact hcancelled
    · rw [hu.log]
      exact hlegal

theorem runtime_ne_of_inStub (hs : InStub w s) (hblocking : s.blocking = false) :
    w.runtime ≠ some .controller := by
  rw [hs.runtime.mpr hblocking]
  exact fun he => by cases he

/-- **The section of a stub is entered**, or waited for; it is never entered with the runtime while
another thread is in one. -/
theorem Inv.lock (h : Inv w) {runtime : Runtime} (hworker : w.worker = .running false k)
    (hs : InStub w s) (hk : k.Fits (w.session = .closed) s) (hguarded : k.guarded = some runtime)
    (ht : w.lock runtime k = some t) : ∃ u, t = some u ∧ Inv u := by
  have hlocked : w.worker.locked = false := by rw [hworker]; rfl
  -- with the runtime, no controller can be in a section
  have hheld : runtime = .held → w.guard = none := by
    rintro rfl
    have hb : s.blocking = false := by
      cases k with
      | cleanupBegin _ k | cleanupEnd _ k =>
        cases hguarded
        exact hk.1.1
      | closeBegin _ k =>
        cases hguarded
        exact hk.2.1.1
      | _ => cases hguarded
    exact h.guard.free hlocked fun _ _ => h.controller.not_locked (runtime_ne_of_inStub hs hb)
  unfold World.lock at ht
  cases hg : w.guard with
  | some x =>
    rw [hg] at ht
    cases runtime with
    | held => exact absurd (hg.symm.trans (hheld rfl)) (Option.some_ne_none x)
    | released => cases ht
  | none =>
    rw [hg] at ht
    cases ht
    refine ⟨_, rfl, ?_, h.session.of_eq rfl rfl rfl rfl,
      h.controller.of_eq rfl rfl (fun _ => rfl) id, ?_, ?_⟩
    · exact ⟨s, ⟨⟨hs.shape.ok, hs.shape.owner, hs.shape.window⟩, hs.runtime⟩, hk, fun _ => by
        rw [hguarded]; rfl⟩
    · refine ⟨iff_of_true rfl rfl, ?_, fun he => by cases he⟩
      refine (iff_of_false (fun he => by cases he) fun hc => ?_)
      have he := h.guard.controller.mpr hc
      rw [hg] at he
      cases he
    · obtain ⟨hc, hi, hcancelled, hlegal⟩ := h.log
      exact ⟨hc, hi.trans (by rw [hworker]; rfl), hcancelled, hlegal⟩

/-- What a section records is allowed. -/
theorem Records.log {active : Option ℕ} {x y : Option Bool} {es : List Event}
    (h : Records w.latched active x y es) (hx : window w.log = x) (hlog : LogOk w)
    (hactive : w.owner.active = active) (hin : w.worker.inside = none) :
    current (es ++ w.log) = active ∧ window (es ++ w.log) = y ∧ inside (es ++ w.log) = none ∧
      (∀ r, .cancelled r ∈ es ++ w.log ↔ .cancelled r ∈ w.log) ∧
        Legal Allowed (es ++ w.log) := by
  have hcurrent := hlog.current.trans hactive
  have hinside := hlog.inside.trans hin
  have hmem : ∀ {e : Event}, (∀ r, e ≠ .cancelled r) →
      ∀ r, .cancelled r ∈ e :: w.log ↔ .cancelled r ∈ w.log := fun hne r =>
    ⟨fun he => (List.mem_cons.mp he).resolve_left (hne r).symm, List.mem_cons_of_mem _⟩
  rcases h with ⟨rfl, rfl⟩ | ⟨rfl, rfl⟩ | ⟨i, rfl, rfl, hlatched⟩ | ⟨rfl, rfl, r, hr, hlatched⟩
  · exact ⟨hcurrent, hx, hinside, fun _ => .rfl, hlog.legal⟩
  · exact ⟨hcurrent, rfl, hinside, hmem fun r => by simp, hinside, hlog.legal⟩
  · refine ⟨hcurrent, rfl, hinside, hmem fun r => by simp, ⟨hinside, fun r hr hc => ?_⟩,
      hlog.legal⟩
    have hne := hlatched r (hcurrent.symm.trans hr)
    exact Bool.false_ne_true (hne.symm.trans ((hlog.cancelled r).mp hc))
  · exact ⟨hcurrent, rfl, hinside, hmem fun r => by simp,
      ⟨hinside, r, hcurrent.trans hr, (hlog.cancelled r).mpr hlatched⟩, hlog.legal⟩

/-- **A section does not fail**, and leaves the guard. -/
theorem Inv.unlock (h : Inv w) (hworker : w.worker = .running true k) (hs : InStub w s)
    (hk : k.Fits (w.session = .closed) s) (hguarded : k.guarded.isSome = true)
    (ht : w.unlock k = some t) : ∃ u, t = some u ∧ Inv u := by
  obtain ⟨o, k', es, s', hsection, hk', hok, howner, hblocking, hactive, -, hrecords⟩ :=
    inGuard_spec w.latched hk hs.shape.owner hguarded h.session.active_of_closed
  have hin : w.worker.inside = none := by rw [hworker]; rfl
  obtain ⟨hcurrent, hwindow, hinside, hmem, hlegal⟩ :=
    hrecords.log hs.shape.window h.log rfl hin
  rw [World.unlock, hsection] at ht
  cases ht
  refine ⟨_, rfl, ?_, h.session.of_eq hactive rfl rfl rfl,
    h.controller.of_eq rfl rfl (fun _ => rfl) id, ?_, ?_⟩
  · exact workerOk_running ⟨⟨hok, howner, hwindow⟩, by rw [hblocking]; exact hs.runtime⟩ rfl hk'
  · have hguard : w.guard = some .worker := h.guard.worker.mpr (by rw [hworker]; rfl)
    refine ⟨iff_of_false (fun he => by cases he) Bool.false_ne_true, ?_, fun he => by cases he⟩
    refine iff_of_false (fun he => by cases he) fun hc => ?_
    have he := h.guard.controller.mpr hc
    rw [hguard] at he
    cases he
  · exact ⟨hcurrent.trans hactive.symm, hinside, fun r => (hmem r).trans (h.log.cancelled r),
      hlegal⟩

theorem work_guarded {a : Answer} {runtime : Runtime} (hworker : w.worker = .running false k)
    (hk : k.guarded = some runtime) : w.work a = w.lock runtime k := by
  unfold World.work
  rw [hworker]
  cases k with
  | done | enterBlocking | leaveBlocking | call => cases hk
  | _ =>
    cases hk
    rfl

theorem GuardOk.of_eq (h : GuardOk w) (hguard : u.guard = w.guard)
    (hlocked : u.worker.locked = w.worker.locked) (hcontroller : u.controller = w.controller) :
    GuardOk u := by
  obtain ⟨hw, hc, ho⟩ := h
  refine ⟨?_, ?_, ?_⟩
  · rw [hguard, hlocked]
    exact hw
  · rw [hguard, hcontroller]
    exact hc
  · rw [hguard]
    exact ho

/-- A function of the engine is called where it may be. -/
theorem Shape.open_of_permits {c : Call} (h : s.permits c) (hs : s.Ok) :
    s.window = c.window.open_ := by
  unfold Shape.permits at h
  cases hc : c.window <;> rw [hc] at h
  · exact h
  · exact h
  · exact h.2.2
  · by_contra hne
    exact absurd (hs hne).2.1 h.ne'

/-- The phase does not depend on whether there is a connection. -/
theorem Matches.connected {o : Owner} (h : Matches s o) (connected : Bool) :
    Matches s { o with connected := connected } :=
  ⟨h.foreign, h.depth, h.closing, h.phase⟩

/-- **A step of a stub.** -/
theorem Inv.work (h : Inv w) {a : Answer} (ht : w.work a = some t) : ∃ u, t = some u ∧ Inv u := by
  have hw := h.worker
  unfold WorkerOk at hw
  cases hworker : w.worker with
  | ready =>
    unfold World.work at ht
    rw [hworker] at ht
    cases ht
  | running locked k =>
    rw [hworker] at hw
    obtain ⟨s, hs, hk, hlocked⟩ := hw
    cases locked with
    | true =>
      unfold World.work at ht
      rw [hworker] at ht
      exact h.unlock hworker hs hk (hlocked rfl) ht
    | false =>
      have hunlocked : w.worker.locked = false := by rw [hworker]; rfl
      have hin : w.worker.inside = none := by rw [hworker]; rfl
      cases hg : k.guarded with
      | some runtime => exact h.lock hworker hs hk hg ((work_guarded hworker hg).symm.trans ht)
      | none =>
        unfold World.work at ht
        rw [hworker] at ht
        cases k with
        | workBegin | workEnd | callBegin | callEnd | cleanupBegin | cleanupEnd | closeBegin =>
          cases hg
        | done =>
          cases ht
          refine ⟨_, rfl, h.outside ⟨rfl, rfl, rfl, rfl, rfl, rfl, rfl⟩ hunlocked rfl hin.symm
            ?_ ?_⟩
          · exact runtime_ne_of_inStub hs (by rw [show s = _ from hk]; rfl)
          · change AtShape _ _
            rw [← show s = _ from hk]
            exact ⟨hs.shape.ok, hs.shape.owner, hs.shape.window⟩
        | enterBlocking k =>
          -- only where the runtime is changes: the shape is the same
          cases ht
          refine ⟨_, rfl, h.outside ⟨rfl, rfl, rfl, rfl, rfl, rfl, rfl⟩ hunlocked rfl hin.symm
            (runtime_ne_of_inStub hs hk.1) ?_⟩
          have hok : ({ s with blocking := true } : Shape).Ok := fun hne =>
            ⟨(hs.shape.ok hne).1, (hs.shape.ok hne).2.1, (hs.shape.ok hne).2.2.1, rfl⟩
          refine workerOk_running (s := { s with blocking := true })
            ⟨⟨hok, ?_, hs.shape.window⟩, ?_⟩ rfl hk.2
          · exact ⟨hs.shape.owner.1, hs.shape.owner.2, hs.shape.owner.3, hs.shape.owner.4⟩
          · exact iff_of_false (fun he => by cases he) fun he => by cases he
        | leaveBlocking k =>
          change (if w.runtime = none then _ else _) = _ at ht
          split at ht
          case isFalse => cases ht
          case isTrue hfree =>
            cases ht
            refine ⟨_, rfl, h.outside ⟨rfl, rfl, rfl, rfl, rfl, rfl, rfl⟩ hunlocked rfl hin.symm
              ?_ ?_⟩
            · rw [hfree]
              exact fun he => by cases he
            · refine workerOk_running (s := { s with blocking := false })
                ⟨⟨fun hne => absurd hk.2.1 hne, ?_, hs.shape.window⟩, ?_⟩ rfl hk.2.2
              · exact ⟨hs.shape.owner.1, hs.shape.owner.2, hs.shape.owner.3, hs.shape.owner.4⟩
              · exact iff_of_true rfl rfl
        | call c k =>
          -- the shape permits the call, so the log has the window open that it needs
          cases ht
          have hopen := Shape.open_of_permits hk.1 hs.shape.ok
          refine ⟨_, rfl, ?_, h.session.of_eq rfl rfl rfl rfl,
            h.controller.of_eq rfl rfl (fun _ => rfl) id,
            h.guard.of_eq rfl hunlocked.symm rfl, ?_⟩
          · exact ⟨s, ⟨⟨hs.shape.ok, hs.shape.owner, hs.shape.window⟩, hs.runtime⟩, hk⟩
          · obtain ⟨hc, hi, hcancelled, hlegal⟩ := h.log
            refine ⟨hc, rfl, fun r => Iff.trans ?_ (hcancelled r), ⟨hi.trans hin, ?_⟩, hlegal⟩
            · exact cancelled_cons (by simp)
            · exact hs.shape.window.trans hopen
  | calling c k =>
    rw [hworker] at hw
    obtain ⟨s, hs, hc, hk⟩ := hw
    unfold World.work at ht
    rw [hworker] at ht
    cases ht
    refine ⟨_, rfl, ?_, h.session.of_eq rfl rfl rfl rfl,
      h.controller.of_eq rfl rfl (fun _ => rfl) id,
      h.guard.of_eq rfl (by rw [hworker]; rfl) rfl, ?_⟩
    · exact workerOk_running
        ⟨⟨hs.shape.ok, hs.shape.owner.connected _, hs.shape.window⟩, hs.runtime⟩ rfl (hk a)
    · obtain ⟨hcurrent, hi, hcancelled, hlegal⟩ := h.log
      refine ⟨hcurrent, rfl, fun r => Iff.trans ?_ (hcancelled r), ?_, hlegal⟩
      · exact cancelled_cons (by simp)
      · exact hi.trans (by rw [hworker]; rfl)

/-! ### The controller -/

theorem AtShape.of_eq (h : AtShape w s) (howner : u.owner = w.owner)
    (hwindow : Delivery.window u.log = Delivery.window w.log) : AtShape u s := by
  obtain ⟨hok, ho, hw⟩ := h
  refine ⟨hok, ?_, hwindow.trans hw⟩
  rw [howner]
  exact ho

/-- The worker does not see what the other threads do. -/
theorem WorkerOk.of_eq (h : WorkerOk w) (hworker : u.worker = w.worker)
    (howner : u.owner = w.owner)
    (hsession : decide (u.session = .closed) = decide (w.session = .closed))
    (hwindow : window u.log = window w.log)
    (hruntime : u.runtime = some .worker ↔ w.runtime = some .worker) : WorkerOk u := by
  unfold WorkerOk at h ⊢
  rw [hworker, hsession]
  cases hw : w.worker with
  | ready =>
    rw [hw] at h
    exact h.of_eq howner hwindow
  | running locked k =>
    rw [hw] at h
    obtain ⟨s, hs, hk⟩ := h
    exact ⟨s, ⟨hs.shape.of_eq howner hwindow, hruntime.trans hs.runtime⟩, hk⟩
  | calling c k =>
    rw [hw] at h
    obtain ⟨s, hs, hk⟩ := h
    exact ⟨s, ⟨hs.shape.of_eq howner hwindow, hruntime.trans hs.runtime⟩, hk⟩

theorem WorkerOk.shape (h : WorkerOk w) : ∃ s, AtShape w s := by
  unfold WorkerOk at h
  cases hw : w.worker with
  | ready =>
    rw [hw] at h
    exact ⟨_, h⟩
  | running locked k =>
    rw [hw] at h
    obtain ⟨s, hs, -⟩ := h
    exact ⟨s, hs.shape⟩
  | calling c k =>
    rw [hw] at h
    obtain ⟨s, hs, -⟩ := h
    exact ⟨s, hs.shape⟩

/-- The phase is the one of a call that may be interrupted only in such a call. -/
theorem Matches.window_of_user {o : Owner} (h : Matches s o) (hphase : o.phase = .user) :
    s.window = some true := by
  have hp := h.phase
  split at hp
  case isTrue hw => exact hw.1
  case isFalse =>
    rw [hphase] at hp
    change Phase.user = if o.closing then _ else if 0 < o.cleanupDepth then _ else
      if o.foreignActive then _ else _ at hp
    split at hp
    · cases hp
    · split at hp
      · cases hp
      · split at hp <;> cases hp

/-- What the session says of a request stays as it is. -/
structure SameRequest (q q' : Request) : Prop where
  state : q'.state = q.state
  owner : q'.owner = q.owner
  disposed : q'.disposed = q.disposed
  stop : q'.stop = q.stop

theorem SessionOk.lt_created (h : SessionOk w) (hr : w.session.active = some r) :
    r < w.created := by
  by_contra hge
  have hs := (h.installed r).mpr hr
  rw [h.fresh r (not_lt.mp hge)] at hs
  cases hs

theorem SessionOk.update (h : SessionOk w) {q : Request} (hq : SameRequest (w.requests r) q)
    (hr : r < w.created) (hactive : u.owner.active = w.owner.active)
    (hrequests : u.requests = Function.update w.requests r q) (hcreated : u.created = w.created)
    (hsession : u.session = w.session) : SessionOk u := by
  -- what the session says of a request does not depend on what has changed in `r`
  have hsame : ∀ x, SameRequest (w.requests x) (u.requests x) := by
    intro x
    rw [hrequests]
    by_cases hx : x = r
    · subst hx
      rw [Function.update_self]
      exact hq
    · rw [Function.update_of_ne hx]
      exact ⟨rfl, rfl, rfl, rfl⟩
  refine ⟨fun x hx => ?_, ?_, fun x => ?_, fun x => ?_, fun x => ?_, fun x hx => ?_,
    fun x hx => ?_, fun x hx => ?_, fun x hx => ?_⟩
  · rw [hcreated] at hx
    -- a request that has not been created is not `r`
    rw [hrequests, Function.update_of_ne (hr.trans_le hx).ne']
    exact h.fresh x hx
  · rw [hactive, h.active, hsession]
  · rw [(hsame x).state, hsession]
    exact h.installed x
  · rw [(hsame x).owner, hsession]
    exact h.bound x
  · rw [(hsame x).disposed, hsession]
    exact h.alive x
  · rw [hsession] at hx
    rw [hcreated, (hsame x).state, (hsame x).disposed]
    exact h.prepared x hx
  · rw [hsession] at hx
    rw [(hsame x).stop]
    exact h.stop x hx
  · rw [hsession] at hx
    rw [(hsame x).stop]
    exact h.going x hx
  · rw [hsession] at hx
    rw [hcreated]
    exact h.detached x hx

/-- The request of a controller is installed. -/
theorem Inv.active_of_controller (h : Inv w) {p : Position} (hc : w.controller = some (r, p)) :
    w.session.active = some r := by
  rcases h.controller.session r p hc with hs | hs <;> rw [hs] <;> rfl

theorem Inv.reserved_eq (h : Inv w) {p : Position} (hc : w.controller = some (r, p)) :
    (w.requests r).reserved = p.reserved := by
  have hr := h.controller.reserved r
  cases hp : p.reserved
  · refine Bool.eq_false_iff.mpr fun he => ?_
    obtain ⟨p', hc', hp'⟩ := hr.mp he
    cases hc.symm.trans hc'
    exact Bool.false_ne_true (hp.symm.trans hp')
  · exact hr.mpr ⟨p, hc, hp⟩

/-- What a step of the controller of `r` does, when it goes from `p` to `p'`. -/
structure Controlled (r : ℕ) (p p' : Position) (w u : World) : Prop where
  controller : u.controller = some (r, p')
  enters : p'.locked = true → u.guard = some .controller ∧ (p.locked = true ∨ w.guard = none)
  leaves : p'.locked = false → u.guard = if p.locked then none else w.guard
  requests : u.requests = Function.update w.requests r
    { w.requests r with reserved := p'.reserved }
  owner : u.owner = w.owner
  created : u.created = w.created
  worker : u.worker = w.worker
  session : u.session = w.session
  runtime : u.runtime = w.runtime
  log : u.log = w.log ∨ u.log = .interrupted r :: w.log ∧ (w.requests r).cancelled = true ∧
    w.owner.phase = .user

theorem Controlled.log_views {p p' : Position} (hu : Controlled r p p' w u) :
    window u.log = window w.log ∧ current u.log = current w.log ∧ inside u.log = inside w.log := by
  rcases hu.log with he | ⟨he, -⟩ <;> rw [he] <;> exact ⟨rfl, rfl, rfl⟩

theorem ControllerOk.controlled (h : ControllerOk w) {p p' : Position}
    (hc : w.controller = some (r, p)) (hruntime : w.runtime = some .controller)
    (hu : Controlled r p p' w u) : ControllerOk u where
  session := by
    intro x q hx
    cases hu.controller.symm.trans hx
    rw [hu.session]
    exact h.session r p hc
  leased := by
    intro x hx
    rw [hu.session] at hx
    obtain ⟨q, hq⟩ := h.leased x hx
    cases hc.symm.trans hq
    exact ⟨p', hu.controller⟩
  reserved := by
    intro x
    rw [hu.requests, hu.controller]
    by_cases hx : x = r
    -- its own request is reserved as its position says
    · subst hx
      rw [Function.update_self]
      exact ⟨fun he => ⟨p', rfl, he⟩, fun ⟨q, hq, he⟩ => by cases hq; exact he⟩
    -- no other request is reserved, since there is one controller
    · rw [Function.update_of_ne hx]
      refine iff_of_false (fun he => ?_) fun ⟨q, hq, _⟩ => ?_
      · obtain ⟨q, hq, -⟩ := (h.reserved x).mp he
        cases hc.symm.trans hq
        exact hx rfl
      · cases hq
        exact hx rfl
  runtime := by
    intro _ _ _ _
    rw [hu.runtime]
    exact hruntime

theorem GuardOk.locked_iff (h : GuardOk w) {p : Position} (hc : w.controller = some (r, p)) :
    w.guard = some .controller ↔ p.locked = true := by
  refine h.controller.trans ⟨fun ⟨x, q, hq, hl⟩ => ?_, fun hp => ⟨r, p, hc, hp⟩⟩
  cases hc.symm.trans hq
  exact hl

theorem GuardOk.controlled (h : GuardOk w) {p p' : Position} (hc : w.controller = some (r, p))
    (hu : Controlled r p p' w u) : GuardOk u := by
  have hlocked := h.locked_iff hc
  cases hp' : p'.locked with
  | true =>
    obtain ⟨hg, hfree⟩ := hu.enters hp'
    refine ⟨?_, iff_of_true hg ⟨r, p', hu.controller, hp'⟩, by rw [hg]; simp⟩
    -- the worker does not have it before the section either
    rw [hg, hu.worker, ← h.worker]
    refine iff_of_false (fun he => by cases he) fun he => ?_
    rcases hfree with hp | hnone
    · cases he.symm.trans (hlocked.mpr hp)
    · cases he.symm.trans hnone
  | false =>
    have hg := hu.leaves hp'
    have hnone : ¬∃ x q, u.controller = some (x, q) ∧ q.locked = true := by
      rintro ⟨x, q, hq, hl⟩
      cases hu.controller.symm.trans hq
      exact Bool.false_ne_true (hp'.symm.trans hl)
    cases hp : p.locked with
    | true =>
      rw [hp, if_pos rfl] at hg
      refine ⟨?_, iff_of_false (by rw [hg]; simp) hnone, by rw [hg]; simp⟩
      rw [hg, hu.worker, ← h.worker, hlocked.mpr hp]
      exact iff_of_false (fun he => by cases he) fun he => by cases he
    | false =>
      rw [hp, if_neg Bool.false_ne_true] at hg
      refine ⟨?_, iff_of_false ?_ hnone, ?_⟩
      · rw [hg, hu.worker]
        exact h.worker
      · rw [hg, hlocked, hp]
        exact Bool.false_ne_true
      · rw [hg]
        exact h.other

theorem Inv.log_controlled (h : Inv w) {p p' : Position} (hc : w.controller = some (r, p))
    (hu : Controlled r p p' w u) : LogOk u := by
  obtain ⟨-, hcurrent, hinside⟩ := hu.log_views
  refine ⟨?_, ?_, fun x => ?_, ?_⟩
  · rw [hcurrent, hu.owner]
    exact h.log.current
  · rw [hinside, hu.worker]
    exact h.log.inside
  -- the controller cancels nothing
  · have hcancelled : (u.requests x).cancelled = (w.requests x).cancelled := by
      rw [hu.requests]
      by_cases hx : x = r
      · subst hx
        rw [Function.update_self]
      · rw [Function.update_of_ne hx]
    rw [hcancelled, ← h.log.cancelled x]
    -- an interrupt is no cancellation
    rcases hu.log with he | ⟨he, -⟩
    · rw [he]
    · rw [he]
      exact cancelled_cons (by simp)
  · rcases hu.log with he | ⟨he, hcancelled, hphase⟩
    · rw [he]
      exact h.log.legal
    · -- the phase of the owner says that the call may be interrupted
      obtain ⟨s, hs⟩ := h.worker.shape
      rw [he]
      exact ⟨⟨h.log.current.trans (h.session.active.trans (h.active_of_controller hc)),
        (h.log.cancelled r).mpr hcancelled, hs.window.trans (hs.owner.window_of_user hphase)⟩,
        h.log.legal⟩

/-- **The controller keeps the invariant.** -/
theorem Inv.controlled (h : Inv w) {p : Position} (hc : w.controller = some (r, p))
    (hruntime : w.runtime = some .controller) (p' : Position) (hu : Controlled r p p' w u) :
    Inv u where
  worker := h.worker.of_eq hu.worker hu.owner (by rw [hu.session]) hu.log_views.1
    (by rw [hu.runtime])
  session := h.session.update (q := { w.requests r with reserved := p'.reserved })
    ⟨rfl, rfl, rfl, rfl⟩ (h.session.lt_created (h.active_of_controller hc)) (by rw [hu.owner])
    hu.requests hu.created hu.session
  controller := h.controller.controlled hc hruntime hu
  guard := h.guard.controlled hc hu
  log := h.log_controlled hc hu

theorem requests_eq_update (h : Inv w) {p p' : Position} (hc : w.controller = some (r, p))
    (hp : p'.reserved = p.reserved) :
    w.requests = Function.update w.requests r { w.requests r with reserved := p'.reserved } := by
  rw [hp, ← h.reserved_eq hc]
  exact (Function.update_eq_self r w.requests).symm

/-- The controller goes on outside of the sections, with the reservation as it is. -/
theorem Inv.moved (h : Inv w) {p : Position} (hc : w.controller = some (r, p))
    (hruntime : w.runtime = some .controller) {p' : Position} (hlocked : p'.locked = false)
    (hreserved : p'.reserved = p.reserved) :
    Inv { w with controller := some (r, p'), guard := if p.locked then none else w.guard } :=
  h.controlled hc hruntime p' ⟨rfl, fun he => absurd (hlocked.symm.trans he) Bool.false_ne_true,
    fun _ => rfl, requests_eq_update h hc hreserved, rfl, rfl, rfl, rfl, rfl, .inl rfl⟩

/-- The controller enters a section when it finds the guard free. -/
theorem Inv.entered (h : Inv w) {p : Position} (hc : w.controller = some (r, p))
    (hruntime : w.runtime = some .controller) (hfree : w.guard = none) {p' : Position}
    (hlocked : p'.locked = true) (hreserved : p'.reserved = p.reserved) :
    Inv { w with controller := some (r, p'), guard := some .controller } :=
  h.controlled hc hruntime p' ⟨rfl, fun _ => ⟨rfl, .inr hfree⟩,
    fun he => absurd (he.symm.trans hlocked) Bool.false_ne_true,
    requests_eq_update h hc hreserved, rfl, rfl, rfl, rfl, rfl, .inl rfl⟩

theorem cancelled_of_eligible {q : Request} {o : Owner} (h : eligible r q o = true) :
    q.cancelled = true ∧ o.phase = .user := by
  simp only [eligible, Bool.and_eq_true, decide_eq_true_eq] at h
  exact ⟨h.1.1.1.2, h.1.1.2⟩

/-- The controller ends when it has been stopped. -/
theorem Inv.exit (h : Inv w) (hc : w.controller = some (r, .test))
    (hstop : (w.requests r).stop = true) (hruntime : w.runtime = some .controller) :
    Inv { w with controller := none, runtime := none } := by
  -- at the test nothing is reserved
  have hnone : ∀ x, (w.requests x).reserved = false := fun x => by
    refine Bool.eq_false_iff.mpr fun he => ?_
    obtain ⟨p, hp, hr⟩ := (h.controller.reserved x).mp he
    cases hc.symm.trans hp
    cases hr
  refine ⟨h.worker.of_eq rfl rfl rfl rfl ?_, h.session.of_eq rfl rfl rfl rfl,
    ⟨(fun x p hx => by cases hx), fun x hx => ?_, fun x => ?_, fun x p hx => by cases hx⟩,
    ⟨h.guard.worker, ?_, h.guard.other⟩, ⟨h.log.current, h.log.inside, h.log.cancelled,
    h.log.legal⟩⟩
  · rw [hruntime]
    exact iff_of_false (fun he => by cases he) fun he => by cases he
  · -- the request that the controller leaves is not leased any more
    obtain ⟨q, hq⟩ := h.controller.leased x hx
    cases hc.symm.trans hq
    have hgoing := h.session.going r (by rw [show w.session = _ from hx]; rfl)
    exact absurd (hgoing.symm.trans hstop) Bool.false_ne_true
  · rw [hnone x]
    exact iff_of_false Bool.false_ne_true fun ⟨p, hp, _⟩ => by cases hp
  · refine iff_of_false (fun he => ?_) fun ⟨x, p, hx, _⟩ => by cases hx
    obtain ⟨x, p, hx, hp⟩ := h.guard.controller.mp he
    cases hc.symm.trans hx
    cases hp

/-- **A step of the controller** does not fail: its reservation is its own. -/
theorem Inv.control (h : Inv w) {p : Position} (hc : w.controller = some (r, p))
    (hruntime : w.runtime = some .controller) : ∃ u, w.control r p = some u ∧ Inv u := by
  have hactive := h.active_of_controller hc
  have hreserved := h.reserved_eq hc
  have hbound : (w.requests r).owner = true := (h.session.bound r).mpr hactive
  have halive := h.session.not_disposed hactive
  cases p with
  -- it ends when it has been stopped, and goes on otherwise
  | test =>
    change ∃ u, (if (w.requests r).stop then _ else _) = _ ∧ _
    split
    case isTrue hstop => exact ⟨_, rfl, h.exit hc hstop hruntime⟩
    case isFalse => exact ⟨_, rfl, h.moved hc hruntime rfl rfl⟩
  -- the guard is entered if the request is there and the guard is free; else it tests again
  | reserve =>
    change ∃ u, (if (w.requests r).disposed || !(w.requests r).owner || w.guard.isSome then _
      else _) = _ ∧ _
    split
    case isTrue => exact ⟨_, rfl, h.moved hc hruntime rfl rfl⟩
    case isFalse hfree =>
      rw [halive, hbound] at hfree
      exact ⟨_, rfl, h.entered hc hruntime (Option.not_isSome_iff_eq_none.mp hfree) rfl rfl⟩
  -- under the guard the request is reserved, if it is eligible
  | reserving =>
    have hreserve : reserveDelivery r (w.requests r) w.owner =
        if eligible r (w.requests r) w.owner then
          (.reserved, { w.requests r with reserved := true })
        else (.ineligible, w.requests r) := by
      rw [reserveDelivery, hreserved]
      rfl
    unfold World.control
    rw [hreserve]
    cases eligible r (w.requests r) w.owner
    · refine ⟨_, rfl, h.controlled hc hruntime .test ⟨rfl, (fun he => by cases he),
        fun _ => rfl, ?_, rfl, rfl, rfl, rfl, rfl, .inl rfl⟩⟩
      change Function.update w.requests r (w.requests r) = _
      rw [Function.update_eq_self]
      exact requests_eq_update h hc rfl
    · exact ⟨_, rfl, h.controlled hc hruntime .deliver ⟨rfl, (fun he => by cases he),
        fun _ => rfl, rfl, rfl, rfl, rfl, rfl, rfl, .inl rfl⟩⟩
  -- the reservation keeps the request there and bound, so that the section is not fatal
  | deliver =>
    unfold World.control
    rw [halive, hreserved, hbound]
    change ∃ u, (if w.guard.isSome then some _ else some _) = _ ∧ _
    split
    case isTrue => exact ⟨_, rfl, h.moved hc hruntime rfl rfl⟩
    case isFalse hfree =>
      exact ⟨_, rfl, h.entered hc hruntime (Option.not_isSome_iff_eq_none.mp hfree) rfl rfl⟩
  -- the request may have ceased to be eligible in between
  | interrupting =>
    unfold World.control tryInterrupt
    cases heligible : eligible r (w.requests r) w.owner
    · exact ⟨_, rfl, h.moved hc hruntime rfl rfl⟩
    · exact ⟨_, rfl, h.controlled hc hruntime .retire ⟨rfl, (fun he => by cases he),
        fun _ => rfl, requests_eq_update h hc rfl, rfl, rfl, rfl, rfl, rfl,
        .inr ⟨rfl, cancelled_of_eligible heligible⟩⟩⟩
  | retire =>
    exact ⟨_, rfl, h.controlled hc hruntime .test ⟨rfl, (fun he => by cases he),
      fun _ => rfl, rfl, rfl, rfl, rfl, rfl, rfl, .inl rfl⟩⟩

end DuckdbMl.Delivery
