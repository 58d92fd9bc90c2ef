import DuckdbMl.Delivery.Shape

/-!
# What holds of a connection with its worker and its controllers

## Main definitions

* `Allowed l e`: the event `e` may follow the events `l`
* `Inv w`: the owner is as the code of the worker says, the guard and the runtime are with those who
  use them, and the log is legal

## Main results

* `window_of_inside`: the functions of the engine are called in the admitted calls that they need
* `inGuard_spec`: a section of a balanced stub does not fail
-/

namespace DuckdbMl.Delivery

open Transition (Legal)

variable {w u : World} {b : Bool} {s : Shape} {k : Code} {o : Owner} {r : ℕ}

/-! ### What the log says -/

/-- The request that is installed. -/
def current : List Event → Option ℕ
  | [] => none
  | .installed r :: _ => some r
  | .uninstalled _ :: _ => none
  | _ :: l => current l

/-- The admitted call that is open, and whether it may be interrupted. -/
def window : List Event → Option Bool
  | [] => none
  | .admitted interruptible :: _ => some interruptible
  | .suppressed :: _ | .ended :: _ => none
  | _ :: l => window l

/-- The function of the engine that is being called. -/
def inside : List Event → Option Call
  | [] => none
  | .entered c :: _ => some c
  | .returned _ :: _ => none
  | _ :: l => inside l

/-- The admitted call that a function of the engine is called in. -/
def Window.open_ : Window → Option Bool
  | .user => some true
  | .scalar => some false
  | .work | .cleanup => none

/-- **What may happen next.** Nothing is admitted for a request that has been cancelled, and the
engine is interrupted only for the installed request, after its cancellation, in an admitted call
that may be interrupted. -/
def Allowed (l : List Event) : Event → Prop
  | .installed _ => current l = none ∧ window l = none ∧ inside l = none
  | .uninstalled r => current l = some r ∧ window l = none ∧ inside l = none
  | .cancelled _ => True
  | .admitted _ => inside l = none ∧ ∀ r, current l = some r → .cancelled r ∉ l
  | .suppressed => inside l = none ∧ ∃ r, current l = some r ∧ .cancelled r ∈ l
  | .ended => inside l = none
  | .entered c => inside l = none ∧ window l = c.window.open_
  | .returned c => inside l = some c
  | .interrupted r => current l = some r ∧ .cancelled r ∈ l ∧ window l = some true

/-- The functions of the engine are called in the admitted calls that they need. -/
theorem window_of_inside {l : List Event} (h : Legal Allowed l) {c : Call}
    (hc : inside l = some c) : window l = c.window.open_ := by
  induction l with
  | nil => cases hc
  | cons e l ih =>
    obtain ⟨he, hl⟩ := h
    cases e with
    | entered d =>
      cases hc
      exact he.2
    | returned d => cases hc
    | admitted i => exact absurd (he.1.symm.trans hc) (Option.some_ne_none c).symm
    | suppressed => exact absurd (he.1.symm.trans hc) (Option.some_ne_none c).symm
    | ended => exact absurd (he.symm.trans hc) (Option.some_ne_none c).symm
    | installed r => exact absurd (he.2.2.symm.trans hc) (Option.some_ne_none c).symm
    | uninstalled r => exact absurd (he.2.2.symm.trans hc) (Option.some_ne_none c).symm
    | cancelled r => exact ih hl hc
    | interrupted r => exact ih hl hc

/-! ### The sections of the worker -/

/-- Only foreign work that is in no cleanup is in an admitted call, and it has released the
runtime. -/
def Shape.Ok (s : Shape) : Prop :=
  s.window ≠ none → s.foreign = true ∧ s.depth = 0 ∧ s.closing = false ∧ s.blocking = true

/-- The owner is as the shape says. -/
structure Matches (s : Shape) (o : Owner) : Prop where
  foreign : o.foreignActive = s.foreign
  depth : o.cleanupDepth = s.depth
  closing : o.closing = s.closing
  phase : o.phase =
    if s.window = some true ∧ o.active.isSome then .user else (phaseUpdate o).phase

/-- What a section records, and the admitted call after it. -/
def Records (latched : ℕ → Bool) (active : Option ℕ) (x y : Option Bool) (es : List Event) :
    Prop :=
  (es = [] ∧ y = x) ∨ (es = [.ended] ∧ y = none) ∨
    (∃ i, es = [.admitted i] ∧ y = some i ∧ ∀ r, active = some r → latched r = false) ∨
      (es = [.suppressed] ∧ y = none ∧ ∃ r, active = some r ∧ latched r = true)

/-- The owner after `phaseUpdate`, in no admitted call. -/
theorem matches_phaseUpdate {o' : Owner} (hforeign : o'.foreignActive = s.foreign)
    (hdepth : o'.cleanupDepth = s.depth) (hclosing : o'.closing = s.closing)
    (hwindow : s.window ≠ some true) : Matches s (phaseUpdate o') where
  foreign := hforeign
  depth := hdepth
  closing := hclosing
  phase := by
    rw [if_neg fun h => hwindow h.1]
    rfl

theorem not_user {x : Option Bool} (h : x = none) : x ≠ some true := by
  rw [h]
  exact (Option.some_ne_none true).symm

theorem phase_phaseUpdate_of_foreign (hforeign : o.foreignActive = true)
    (hdepth : o.cleanupDepth = 0) (hclosing : o.closing = false) :
    (phaseUpdate o).phase = .noninterruptible := by
  change (if o.closing then _ else if 0 < o.cleanupDepth then _ else
    if o.foreignActive then _ else _) = _
  rw [hforeign, hdepth, hclosing]
  rfl

/-- A call is admitted for a request that has not been cancelled, or for none. -/
theorem callBegin_admitted {interruptible : Bool} {latched : ℕ → Bool}
    (hforeign : o.foreignActive = true) (hdepth : o.cleanupDepth = 0) (hclosing : o.closing = false)
    (hlatched : ∀ r, o.active = some r → latched r = false) :
    callBegin interruptible latched o = some (.admitted, { o with
      phase := if interruptible = true ∧ o.active.isSome then .user else .noninterruptible }) := by
  rw [callBegin, hforeign, hdepth, hclosing]
  cases hactive : o.active with
  | none => cases interruptible <;> rfl
  | some r =>
    change (if latched r then _ else _) = _
    rw [hlatched r hactive]
    cases interruptible <;> rfl

theorem callBegin_cancelled {interruptible : Bool} {latched : ℕ → Bool}
    (hforeign : o.foreignActive = true) (hdepth : o.cleanupDepth = 0) (hclosing : o.closing = false)
    (hactive : o.active = some r) (hlatched : latched r = true) :
    callBegin interruptible latched o = some (.cancelled, phaseUpdate o) := by
  rw [callBegin, hforeign, hdepth, hclosing, hactive]
  exact if_pos hlatched

/-- **A section does not fail**, and leaves the owner as the rest of the code needs it. -/
theorem inGuard_spec (latched : ℕ → Bool) (hk : k.Fits b s) (ho : Matches s o)
    (hguarded : k.guarded.isSome = true) (hactive : b = true → o.active = none) :
    ∃ o' k' es s', k.inGuard latched o = some (o', k', es) ∧ k'.Fits b s' ∧ s'.Ok ∧
      Matches s' o' ∧ s'.blocking = s.blocking ∧ o'.active = o.active ∧
        o'.connected = o.connected ∧ Records latched o.active s.window s'.window es := by
  cases k with
  | done | enterBlocking | leaveBlocking | call => cases hguarded
  | workBegin k =>
    obtain ⟨-, hforeign, hdepth, hwindow, hclosing, hk⟩ := hk
    have hwork : workBegin o = some (phaseUpdate { o with foreignActive := true }) := by
      rw [workBegin, ho.foreign, ho.depth, ho.closing, hforeign, hdepth, hclosing]
      rfl
    exact ⟨phaseUpdate { o with foreignActive := true }, k, [], { s with foreign := true },
      by rw [Code.inGuard, hwork]; rfl, hk, fun hne => absurd hwindow hne,
      matches_phaseUpdate rfl ho.depth ho.closing (not_user hwindow), rfl, rfl, rfl,
      .inl ⟨rfl, rfl⟩⟩
  | workEnd k =>
    obtain ⟨-, hforeign, hdepth, -, hk⟩ := hk
    have hwork : workEnd o = some (phaseUpdate { o with foreignActive := false }) := by
      rw [workEnd, ho.foreign, ho.depth, hforeign, hdepth]
      rfl
    exact ⟨phaseUpdate { o with foreignActive := false }, k, [.ended],
      { s with foreign := false, window := none }, by rw [Code.inGuard, hwork]; rfl, hk,
      fun hne => absurd rfl hne, matches_phaseUpdate rfl ho.depth ho.closing (not_user rfl), rfl,
      rfl, rfl, .inr (.inl ⟨rfl, rfl⟩)⟩
  | callBegin interruptible k =>
    obtain ⟨hblocking, hforeign, hdepth, -, hclosing, hadmitted, hcancelled⟩ := hk
    have hforeign' := ho.foreign.trans hforeign
    have hdepth' := ho.depth.trans hdepth
    have hclosing' := ho.closing.trans hclosing
    by_cases hlatched : ∃ r, o.active = some r ∧ latched r = true
    · obtain ⟨r, hr, hl⟩ := hlatched
      refine ⟨phaseUpdate o, k .cancelled, [.suppressed], { s with window := none }, ?_, hcancelled,
        fun hne => absurd rfl hne,
        matches_phaseUpdate ho.foreign ho.depth ho.closing (not_user rfl), rfl, rfl, rfl,
        .inr (.inr (.inr ⟨rfl, rfl, r, hr, hl⟩))⟩
      rw [Code.inGuard, callBegin_cancelled hforeign' hdepth' hclosing' hr hl]
      rfl
    · have hfree : ∀ r, o.active = some r → latched r = false := fun r hr =>
        Bool.eq_false_iff.mpr fun hl => hlatched ⟨r, hr, hl⟩
      refine ⟨{ o with
          phase := if interruptible = true ∧ o.active.isSome then .user else .noninterruptible },
        k .admitted, [.admitted interruptible], { s with window := some interruptible },
        by rw [Code.inGuard, callBegin_admitted hforeign' hdepth' hclosing' hfree]; rfl, hadmitted,
        fun _ => ⟨hforeign, hdepth, hclosing, hblocking⟩,
        ⟨ho.foreign, ho.depth, ho.closing, ?_⟩, rfl, rfl, rfl,
        .inr (.inr (.inl ⟨interruptible, rfl, rfl, hfree⟩))⟩
      -- a call that may not be interrupted is in the phase of the work around it
      rw [phase_phaseUpdate_of_foreign (by exact hforeign') (by exact hdepth') (by exact hclosing')]
      simp only [Option.some.injEq]
  | callEnd k =>
    obtain ⟨-, hforeign, hdepth, -, hk⟩ := hk
    exact ⟨phaseUpdate o, k, [.ended], { s with window := none }, rfl, hk,
      fun hne => absurd rfl hne,
      matches_phaseUpdate ho.foreign ho.depth ho.closing (not_user rfl), rfl, rfl, rfl,
      .inr (.inl ⟨rfl, rfl⟩)⟩
  | cleanupBegin runtime k =>
    obtain ⟨hruntime, hk⟩ := hk
    have hclean : cleanupBegin runtime o =
        some (phaseUpdate { o with cleanupDepth := o.cleanupDepth + 1 }) := by
      refine if_neg fun hheld => ?_
      obtain ⟨rfl, hf⟩ := hheld
      exact Bool.false_ne_true (hruntime.2.symm.trans (ho.foreign.symm.trans hf))
    exact ⟨phaseUpdate { o with cleanupDepth := o.cleanupDepth + 1 }, k, [.ended], s.cleaned,
      by rw [Code.inGuard, hclean]; rfl, hk, fun hne => absurd rfl hne,
      matches_phaseUpdate ho.foreign (congrArg (· + 1) ho.depth) ho.closing (not_user rfl), rfl,
      rfl, rfl, .inr (.inl ⟨rfl, rfl⟩)⟩
  | cleanupEnd runtime k =>
    obtain ⟨-, hdepth, hwindow, hk⟩ := hk
    have hclean : cleanupEnd o =
        some (phaseUpdate { o with cleanupDepth := o.cleanupDepth - 1 }) :=
      if_neg (by rw [ho.depth]; exact hdepth.ne')
    exact ⟨phaseUpdate { o with cleanupDepth := o.cleanupDepth - 1 }, k, [],
      { s with depth := s.depth - 1 }, by rw [Code.inGuard, hclean]; rfl, hk,
      fun hne => absurd hwindow hne,
      matches_phaseUpdate ho.foreign (congrArg (· - 1) ho.depth) ho.closing (not_user hwindow),
      rfl, rfl, rfl, .inl ⟨rfl, rfl⟩⟩
  | closeBegin runtime k =>
    obtain ⟨hb, -, hforeign, hdepth, hwindow, hk⟩ := hk
    have hclose : closeBegin o = some (phaseUpdate { o with closing := true }) := by
      rw [closeBegin, ho.foreign, ho.depth, hforeign, hdepth, hactive hb]
      rfl
    exact ⟨phaseUpdate { o with closing := true }, k, [], { s with closing := true },
      by rw [Code.inGuard, hclose]; rfl, hk, fun hne => absurd hwindow hne,
      matches_phaseUpdate ho.foreign ho.depth rfl (not_user hwindow), rfl, rfl, rfl,
      .inl ⟨rfl, rfl⟩⟩

/-! ### The invariant -/

/-- The request that is installed. -/
def Session.active : Session → Option ℕ
  | .installed r | .leased r | .stopping r | .joined r => some r
  | .free | .prepared _ | .detached _ | .closed => none

/-- The request whose controller has not been told to stop. -/
def Session.going : Session → Option ℕ
  | .prepared r | .installed r | .leased r => some r
  | .free | .stopping _ | .joined _ | .detached _ | .closed => none

/-- The controller has the guard. -/
def Position.locked : Position → Bool
  | .reserving | .interrupting => true
  | .test | .reserve | .deliver | .retire => false

/-- The controller owns the reservation. -/
def Position.reserved : Position → Bool
  | .deliver | .interrupting | .retire => true
  | .test | .reserve | .reserving => false

/-- The worker has the guard. -/
def Worker.locked : Worker → Bool
  | .running locked _ => locked
  | .ready | .calling .. => false

def Worker.inside : Worker → Option Call
  | .calling c _ => some c
  | .ready | .running .. => none

/-- The owner and the log are as the shape says. -/
structure AtShape (w : World) (s : Shape) : Prop where
  ok : s.Ok
  owner : Matches s w.owner
  window : window w.log = s.window

/-- The worker is at a point with the shape `s`, and has the runtime there unless it has released
it. -/
structure InStub (w : World) (s : Shape) : Prop where
  shape : AtShape w s
  runtime : w.runtime = some .worker ↔ s.blocking = false

/-- The rest of the stub is balanced. -/
def WorkerOk (w : World) : Prop :=
  match w.worker with
  | .ready => AtShape w (.rest (w.session = .closed))
  | .running locked k => ∃ s, InStub w s ∧ k.Fits (w.session = .closed) s ∧
      (locked = true → k.guarded.isSome = true)
  | .calling c k => ∃ s, InStub w s ∧ s.permits c ∧ ∀ a, (k a).Fits (w.session = .closed) s

/-- The requests are as the session says. -/
structure SessionOk (w : World) : Prop where
  fresh : ∀ r, w.created ≤ r → w.requests r = Request.created
  active : w.owner.active = w.session.active
  installed : ∀ r, (w.requests r).state = .installed ↔ w.session.active = some r
  bound : ∀ r, (w.requests r).owner = true ↔ w.session.active = some r
  alive : ∀ r, (w.requests r).disposed = true → w.session.active ≠ some r
  prepared : ∀ r, w.session = .prepared r → r < w.created ∧ (w.requests r).state = .fresh ∧
    (w.requests r).disposed = false
  stop : ∀ r, w.session = .stopping r → (w.requests r).stop = true
  going : ∀ r, w.session.going = some r → (w.requests r).stop = false
  detached : ∀ r, w.session = .detached r → r < w.created

/-- There is a controller only of the request that the worker works for, as long as that is leased;
it alone reserves. -/
structure ControllerOk (w : World) : Prop where
  session : ∀ r p, w.controller = some (r, p) → w.session = .leased r ∨ w.session = .stopping r
  leased : ∀ r, w.session = .leased r → ∃ p, w.controller = some (r, p)
  reserved : ∀ r, (w.requests r).reserved = true ↔
    ∃ p, w.controller = some (r, p) ∧ p.reserved = true
  runtime : ∀ r p, w.controller = some (r, p) → p.locked = true → w.runtime = some .controller

/-- The guard is with those who use it. -/
structure GuardOk (w : World) : Prop where
  worker : w.guard = some .worker ↔ w.worker.locked = true
  controller : w.guard = some .controller ↔
    ∃ r p, w.controller = some (r, p) ∧ p.locked = true
  other : w.guard ≠ some .other

/-- The log is legal, and as the state says. -/
structure LogOk (w : World) : Prop where
  current : current w.log = w.owner.active
  inside : inside w.log = w.worker.inside
  cancelled : ∀ r, .cancelled r ∈ w.log ↔ (w.requests r).cancelled = true
  legal : Legal Allowed w.log

/-- What else is recorded does not cancel a request. -/
theorem cancelled_cons {e : Event} {l : List Event} (he : .cancelled r ≠ e) :
    .cancelled r ∈ e :: l ↔ .cancelled r ∈ l :=
  List.mem_cons.trans (or_iff_right he)

/-- **The invariant.** -/
structure Inv (w : World) : Prop where
  worker : WorkerOk w
  session : SessionOk w
  controller : ControllerOk w
  guard : GuardOk w
  log : LogOk w

theorem SessionOk.of_eq (h : SessionOk w) (hactive : u.owner.active = w.owner.active)
    (hrequests : u.requests = w.requests) (hcreated : u.created = w.created)
    (hsession : u.session = w.session) : SessionOk u := by
  obtain ⟨hfresh, hac, hi, hb, ha, hp, hs, hg, hd⟩ := h
  refine ⟨?_, hactive.trans (hac.trans (hsession ▸ rfl)), ?_, ?_, ?_, ?_, ?_, ?_, ?_⟩
  · rw [hrequests, hcreated]
    exact hfresh
  · rw [hrequests, hsession]
    exact hi
  · rw [hrequests, hsession]
    exact hb
  · rw [hrequests, hsession]
    exact ha
  · rw [hrequests, hsession, hcreated]
    exact hp
  · rw [hrequests, hsession]
    exact hs
  · rw [hrequests, hsession]
    exact hg
  · rw [hsession, hcreated]
    exact hd

theorem SessionOk.not_disposed (h : SessionOk w) (hactive : w.session.active = some r) :
    (w.requests r).disposed = false :=
  Bool.eq_false_iff.mpr fun hd => h.alive r hd hactive

/-- The worker has no request while it closes the connection. -/
theorem SessionOk.active_of_closed (h : SessionOk w)
    (hclosed : decide (w.session = .closed) = true) :
    w.owner.active = none := by
  rw [h.active, of_decide_eq_true hclosed]
  rfl

/-- The controller waits while another thread has the runtime. -/
theorem ControllerOk.not_locked (h : ControllerOk w) (hruntime : w.runtime ≠ some .controller)
    {p : Position} (hc : w.controller = some (r, p)) : p.locked = false := by
  cases hp : p.locked
  · rfl
  · exact absurd (h.runtime r p hc hp) hruntime

theorem ControllerOk.of_eq (h : ControllerOk w) (hcontroller : u.controller = w.controller)
    (hsession : u.session = w.session)
    (hreserved : ∀ r, (u.requests r).reserved = (w.requests r).reserved)
    (hruntime : w.runtime = some .controller → u.runtime = some .controller) :
    ControllerOk u := by
  obtain ⟨hs, hl, hr, hu⟩ := h
  refine ⟨?_, ?_, fun r => ?_, fun r p hc hp => hruntime (hu r p (hcontroller.symm.trans hc) hp)⟩
  · rw [hcontroller, hsession]
    exact hs
  · rw [hcontroller, hsession]
    exact hl
  · rw [hcontroller, hreserved]
    exact hr r

/-- The guard is free when neither the worker nor the controller is in a section. -/
theorem GuardOk.free (h : GuardOk w) (hworker : w.worker.locked = false)
    (hcontroller : ∀ r p, w.controller = some (r, p) → p.locked = false) : w.guard = none := by
  rcases hg : w.guard with _ | t
  · rfl
  · cases t with
    | worker => exact absurd (hworker.symm.trans (h.worker.mp hg)) Bool.false_ne_true
    | controller =>
      obtain ⟨r, p, hc, hp⟩ := h.controller.mp hg
      exact absurd ((hcontroller r p hc).symm.trans hp) Bool.false_ne_true
    | other => exact absurd hg h.other

end DuckdbMl.Delivery
