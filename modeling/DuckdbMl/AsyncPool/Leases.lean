import DuckdbMl.AsyncPool.History

/-!
# Leases, and the legality of the log

## Main results

* `Change.leasesOk`: the leases keep fitting the log
* `Change.legal`: what a change records is allowed
-/

namespace DuckdbMl.AsyncPool

open Pool.Async (Answer combine)
open Transition (Legal)

variable {X V : Type} {p t : Pool X V} {i r c : ℕ} {b : Bool}

/-! ### Leases -/

/-- A slot with the same lease and the same connection. -/
structure SameLease (s s' : Slot X V) : Prop where
  owner : s'.owner = s.owner
  lease : s'.lease = s.lease
  work : ∀ w', s'.work = some w' →
    ∃ w, s.work = some w ∧ w'.request = w.request ∧ w'.owner = w.owner
  idle : s'.state = .idle → s.state = .idle

theorem SameLease.refl (s : Slot X V) : SameLease s s :=
  ⟨rfl, rfl, fun w hw => ⟨w, hw, rfl, rfl⟩, id⟩

/-- A slot with another state. -/
theorem SameLease.become (s : Slot X V) {a : SlotState} (ha : a ≠ .idle) :
    SameLease s (s.become a) :=
  ⟨rfl, rfl, fun w hw => ⟨w, hw, rfl, rfl⟩, fun he => absurd he ha⟩

/-- A slot whose work goes on. -/
theorem SameLease.reach (s : Slot X V) (a : Stage X V) : SameLease s (s.reach a) := by
  refine ⟨rfl, rfl, fun w' hw => ?_, id⟩
  obtain ⟨w, hs, rfl⟩ := Option.map_eq_some_iff.mp hw
  exact ⟨w, hs, rfl, rfl⟩

theorem SameLease.update {s : Slot X V} (h : SameLease (p.slots i) s) (j : ℕ) :
    SameLease (p.slots j) (Function.update p.slots i s j) := by
  by_cases hj : j = i
  · rw [hj, Function.update_self]
    exact h
  · rw [Function.update_of_ne hj]
    exact .refl _

/-- What a leased request of an idle slot keeps. -/
def SameOutcome (q q' : Request X V) : Prop :=
  q'.outcome = q.outcome ∧ q'.gate.cancelled = q.gate.cancelled

theorem SameOutcome.update {q : Request X V} {x : ℕ} (h : x = r → SameOutcome (p.requests r) q) :
    SameOutcome (p.requests x) (Function.update p.requests r q x) := by
  by_cases hx : x = r
  · rw [hx, Function.update_self]
    exact h hx
  · rw [Function.update_of_ne hx]
    exact ⟨rfl, rfl⟩

/-- No lease begins or ends. -/
theorem LeasesOk.same (h : LeasesOk p) (hn : t.connections = p.connections)
    (hopened : t.opened = p.opened)
    (hdispatched : ∀ x k, .dispatched x k ∈ t.log ↔ .dispatched x k ∈ p.log)
    (hlog : ∀ e ∈ p.log, e ∈ t.log) (hslots : ∀ j, SameLease (p.slots j) (t.slots j))
    (hrequests : ∀ j < p.connections, ∀ x, (p.slots j).lease = some x →
      (p.slots j).state = .idle → SameOutcome (p.requests x) (t.requests x))
    (hsucceeded : ∀ x, p.Succeeded x → t.Succeeded x) :
    LeasesOk t where
  opened x k hx := hopened ▸ h.opened x k ((hdispatched x k).mp hx)
  work j hj w' hw := by
    obtain ⟨w, hw, hrequest, howner⟩ := (hslots j).work w' hw
    have hwork := h.work j (hn ▸ hj) w hw
    rw [hrequest, howner, (hslots j).owner]
    exact ⟨hwork.1, hlog _ hwork.2⟩
  lease j hj x k hx hd := by
    rw [(hslots j).lease] at hx
    refine (h.lease j (hn ▸ hj) x k hx ((hdispatched x k).mp hd)).imp (hlog _) ?_
    rintro ⟨howner, hidle⟩
    -- a slot that is idle after the step was idle before it, with the same outcome
    refine ⟨(hslots j).owner.trans howner, fun hs => ?_⟩
    have hs := (hslots j).idle hs
    obtain ⟨hout, hcancelled⟩ := hrequests j (hn ▸ hj) x hx hs
    rw [hout, hcancelled]
    exact hidle hs
  used j hj x k ho hk hd := by
    rw [(hslots j).owner] at ho
    rw [(hslots j).lease]
    have hd := (hdispatched x k).mp hd
    exact (h.used j (hn ▸ hj) x k ho (fun hc => hk (hlog _ hc)) hd).imp_right (hsucceeded x)

/-- A request is dispatched. -/
theorem LeasesOk.serve {operation : Operation} (h : LeasesOk p) (hi : i < p.connections)
    (hl : (p.slots i).lease = none) (hc : (p.slots i).owner = some c) (hbound : c < p.opened)
    (hunique : ∀ j < p.connections, (p.slots j).owner = some c → j = i)
    (hfresh : ∀ k, .dispatched r k ∉ p.log)
    (hfree : ∀ j < p.connections, (p.slots j).lease ≠ some r)
    (hlog : t.log = .dispatched r c :: p.log) (hn : t.connections = p.connections)
    (hopened : t.opened = p.opened)
    (hslots : t.slots = Function.update p.slots i ((p.slots i).give r c operation))
    (hrequests : ∀ j < p.connections, ∀ x, (p.slots j).lease = some x →
      SameOutcome (p.requests x) (t.requests x))
    (hsucceeded : ∀ x, p.Succeeded x → t.Succeeded x) :
    LeasesOk t := by
  -- the log has one dispatch more
  have hmem : ∀ x k, .dispatched x k ∈ t.log → x = r ∧ k = c ∨ .dispatched x k ∈ p.log := by
    intro x k hx
    rw [hlog] at hx
    exact (List.mem_cons.mp hx).imp_left fun he => ⟨(Event.dispatched.inj he).1,
      (Event.dispatched.inj he).2⟩
  refine ⟨fun x k hx => ?_, fun j hj w hw => ?_, fun j hj x k hx hd => ?_,
    fun j hj x k ho hk hd => ?_⟩
  · rw [hopened]
    rcases hmem x k hx with ⟨-, rfl⟩ | hx
    · exact hbound
    · exact h.opened x k hx
  · rw [hslots] at hw ⊢
    rw [hlog]
    by_cases hji : j = i
    · rw [hji, Function.update_self] at hw ⊢
      cases hw
      exact ⟨hc, List.mem_cons_self⟩
    · rw [Function.update_of_ne hji] at hw ⊢
      exact (h.work j (hn ▸ hj) w hw).imp_right (List.mem_cons_of_mem _)
  · rw [hslots] at hx ⊢
    by_cases hji : j = i
    -- of the request there is only this dispatch, and its connection is open
    · rw [hji, Function.update_self] at hx ⊢
      cases hx
      rcases hmem _ k hd with ⟨-, rfl⟩ | hd
      · exact .inr ⟨hc, nofun⟩
      · exact absurd hd (hfresh k)
    · rw [Function.update_of_ne hji] at hx ⊢
      have hj := hn ▸ hj
      rcases hmem x k hd with ⟨rfl, -⟩ | hd
      · exact absurd hx (hfree j hj)
      · refine (h.lease j hj x k hx hd).imp (hlog ▸ List.mem_cons_of_mem _) ?_
        obtain ⟨hout, hcancelled⟩ := hrequests j hj x hx
        rw [hout, hcancelled]
        exact id
  · rw [hslots] at ho ⊢
    -- the earlier requests of the connection have succeeded, since the slot was not leased
    have hk : .closing k ∉ p.log := fun hc => hk (hlog ▸ List.mem_cons_of_mem _ hc)
    by_cases hji : j = i
    · rw [hji, Function.update_self] at ho ⊢
      rcases hmem x k hd with ⟨rfl, -⟩ | hd
      · exact .inl rfl
      · refine .inr (hsucceeded x ((h.used i hi x k ho hk hd).resolve_left ?_))
        rw [hl]
        exact (Option.some_ne_none x).symm
    · rw [Function.update_of_ne hji] at ho ⊢
      have hj := hn ▸ hj
      rcases hmem x k hd with ⟨-, rfl⟩ | hd
      · exact absurd (hunique j hj ho) hji
      · exact (h.used j hj x k ho hk hd).imp_right (hsucceeded x)

/-- A slot loses its connection, which has been closed, or gets a new one. -/
theorem LeasesOk.replace {s : Slot X V} (h : LeasesOk p) (hwork : s.work = none)
    (hlease : s.lease = (p.slots i).lease)
    (howner : ∀ k, (p.slots i).owner = some k → .closed k ∈ t.log)
    (hnew : ∀ k, s.owner = some k → ∀ x, .dispatched x k ∉ p.log)
    (hn : t.connections = p.connections) (hopened : p.opened ≤ t.opened)
    (hdispatched : ∀ x k, .dispatched x k ∈ t.log ↔ .dispatched x k ∈ p.log)
    (hlog : ∀ e ∈ p.log, e ∈ t.log) (hslots : t.slots = Function.update p.slots i s)
    (hrequests : t.requests = p.requests) (hadmitted : t.admitted = p.admitted) :
    LeasesOk t := by
  have hsucceeded : ∀ x, p.Succeeded x → t.Succeeded x := fun x => by
    rw [Pool.Succeeded, Pool.Succeeded, hrequests, hadmitted]
    exact id
  refine ⟨fun x k hx => ?_, fun j hj w hw => ?_, fun j hj x k hx hd => ?_,
    fun j hj x k ho hk hd => ?_⟩
  · exact (h.opened x k ((hdispatched x k).mp hx)).trans_le hopened
  · rw [hslots] at hw ⊢
    by_cases hji : j = i
    · rw [hji, Function.update_self, hwork] at hw
      cases hw
    · rw [Function.update_of_ne hji] at hw ⊢
      exact (h.work j (hn ▸ hj) w hw).imp_right (hlog _)
  · rw [hslots] at hx ⊢
    rw [hrequests]
    have hj := hn ▸ hj
    have hd := (hdispatched x k).mp hd
    by_cases hji : j = i
    · rw [hji] at hj
      rw [hji, Function.update_self, hlease] at hx
      -- the connection that the request was dispatched to has been closed
      refine .inl ((h.lease i hj x k hx hd).elim (hlog _) fun ho => howner k ho.1)
    · rw [Function.update_of_ne hji] at hx ⊢
      exact (h.lease j hj x k hx hd).imp_left (hlog _)
  · rw [hslots] at ho ⊢
    have hd := (hdispatched x k).mp hd
    by_cases hji : j = i
    · rw [hji, Function.update_self] at ho
      -- nothing has been dispatched to the new connection
      exact absurd hd (hnew k ho x)
    · rw [Function.update_of_ne hji] at ho ⊢
      exact (h.used j (hn ▸ hj) x k ho (fun hc => hk (hlog _ hc)) hd).imp_right (hsucceeded x)

/-- The work of a request has ended. -/
theorem LeasesOk.settle {w : Work X V} {result : Result X V} {a : SlotState} (h : LeasesOk p)
    (hc : Core none p) (hi : i < p.connections) (hw : (p.slots i).work = some w)
    (ha : a = .idle → (∃ v, result = .ok v) ∧ (p.requests w.request).gate.cancelled = false)
    (hsucceeded : ∀ x, p.Succeeded x → (p.settling i w result a).Succeeded x) :
    LeasesOk (p.settling i w result a) := by
  have hlease := (hc.of_work hi hw).2.1
  have hslots := Pool.slots_settling i w result a p
  have hself : (p.settling i w result a).requests w.request =
      (p.requests w.request).settle result := Function.update_self ..
  refine ⟨h.opened, fun j hj w' hw' => ?_, fun j hj x k hx hd => ?_, fun j hj x k ho hk hd => ?_⟩
  · rw [hslots] at hw' ⊢
    by_cases hji : j = i
    · rw [hji, Function.update_self] at hw'
      cases hw'
    · rw [Function.update_of_ne hji] at hw' ⊢
      exact h.work j hj w' hw'
  · rw [hslots] at hx ⊢
    by_cases hji : j = i
    · rw [hji, Function.update_self] at hx ⊢
      -- the slot is idle only if the request has succeeded and was not cancelled
      cases hlease.symm.trans hx
      refine (h.lease i hi _ k hlease hd).imp_right fun ho => ⟨ho.1, fun hs => ?_⟩
      obtain ⟨⟨v, rfl⟩, hlatched⟩ := ha hs
      rw [hself]
      exact ⟨⟨v, rfl⟩, hlatched⟩
    · rw [Function.update_of_ne hji] at hx ⊢
      -- no other slot has the request
      have hne : x ≠ w.request := by
        rintro rfl
        exact hji (hc.lease j hj i hi _ hx hlease)
      have hsame : (p.settling i w result a).requests x = p.requests x :=
        Function.update_of_ne hne ..
      rw [hsame]
      exact h.lease j hj x k hx hd
  · rw [hslots] at ho ⊢
    by_cases hji : j = i
    · rw [hji, Function.update_self] at ho ⊢
      exact (h.used i hi x k ho hk hd).imp_right (hsucceeded x)
    · rw [Function.update_of_ne hji] at ho ⊢
      exact (h.used j hj x k ho hk hd).imp_right (hsucceeded x)

/-- A request whose slot is done has succeeded, or its connection has been closed. -/
theorem LeasesOk.ended {k : ℕ} (h : LeasesOk p) (hc : Core none p)
    (hconnections : ConnectionsOk p) (hi : i < p.connections)
    (hs : (p.slots i).state.done = true) (hl : (p.slots i).lease = some r)
    (hd : .dispatched r k ∈ p.log) : .closed k ∈ p.log ∨
      (∃ v, (p.requests r).outcome = some (.ok v)) ∧
        (p.requests r).gate.cancelled = false := by
  refine (h.lease i hi r k hl hd).elim .inl ?_
  rintro ⟨ho, hidle⟩
  have hown := (hc.slot i hi).owner
  rw [ho] at hown
  cases he : (p.slots i).state with
  | idle => exact .inr (hidle he)
  | closeFailed => exact .inl ((hconnections.closed i hi k ho).mpr he)
  | closed =>
    rw [he] at hown
    cases hown
  | leased | needsClose | closing | needsConnect | connecting =>
    rw [he] at hs
    cases hs

theorem succeeded_finished {v : V} (hr : r < p.admitted)
    (hlatched : (p.requests r).gate.cancelled = false) :
    ((p.modifySlot i Slot.release).finished r (.ok v)).Succeeded r := by
  refine ⟨hr, v, ?_⟩
  have hself : ((p.modifySlot i Slot.release).finished r (.ok v)).requests r =
      (p.requests r).finish (.ok v) := Function.update_self ..
  rw [hself]
  change some (classify (p.requests r) (.ok v)) = _
  unfold classify
  rw [hlatched, Bool.not_false, if_pos rfl]

/-- A lease ends; the connection of an idle slot stays in use when the request has succeeded. -/
theorem LeasesOk.finishLease {outcome : Result X V} (h : LeasesOk p) (hc : Core none p)
    (hconnections : ConnectionsOk p) (hi : i < p.connections)
    (hs : (p.slots i).state.done = true) (hl : (p.slots i).lease = some r)
    (hout : (p.requests r).outcome = some outcome)
    (hsucceeded : ∀ x, p.Succeeded x →
      ((p.modifySlot i Slot.release).finished r outcome).Succeeded x) :
    LeasesOk ((p.modifySlot i Slot.release).finished r outcome) := by
  have hslots : ((p.modifySlot i Slot.release).finished r outcome).slots =
      Function.update p.slots i (p.slots i).release := rfl
  -- but for the end of the request the log is the same
  have hmem : ∀ {e}, e ≠ .finished r →
      (e ∈ ((p.modifySlot i Slot.release).finished r outcome).log ↔ e ∈ p.log) := mem_cons_of_ne
  refine ⟨fun x k hx => h.opened x k ((hmem Event.noConfusion).mp hx), fun j hj w hw => ?_,
    fun j hj x k hx hd => ?_, fun j hj x k ho hk hd => ?_⟩
  · rw [hslots] at hw ⊢
    rw [hmem Event.noConfusion]
    by_cases hji : j = i
    · rw [hji, Function.update_self] at hw ⊢
      exact h.work i hi w hw
    · rw [Function.update_of_ne hji] at hw ⊢
      exact h.work j hj w hw
  · rw [hslots] at hx ⊢
    rw [hmem Event.noConfusion] at hd ⊢
    by_cases hji : j = i
    · rw [hji, Function.update_self] at hx
      cases hx
    · rw [Function.update_of_ne hji] at hx ⊢
      have hne : x ≠ r := by
        rintro rfl
        exact hji (hc.lease j hj i hi _ hx hl)
      have hsame : ((p.modifySlot i Slot.release).finished r outcome).requests x =
          p.requests x := Function.update_of_ne hne ..
      rw [hsame]
      exact h.lease j hj x k hx hd
  · rw [hslots] at ho ⊢
    rw [hmem Event.noConfusion] at hk hd
    by_cases hji : j = i
    · rw [hji, Function.update_self] at ho ⊢
      refine .inr ?_
      rcases h.used i hi x k ho hk hd with hx | hx
      -- a connection that stays in use was left by a success: a failure would have closed it
      · cases hl.symm.trans hx
        have hclosed : .closed k ∉ p.log := fun hclosed =>
          hk ((hconnections.closing i hi k ho).mpr
            (.inr ((hconnections.closed i hi k ho).mp hclosed)))
        obtain ⟨⟨v, hv⟩, hlatched⟩ := (h.ended hc hconnections hi hs hl hd).resolve_left hclosed
        cases hout.symm.trans hv
        exact succeeded_finished (hc.leased i hi r hl) hlatched
      · exact hsucceeded x hx
    · rw [Function.update_of_ne hji] at ho ⊢
      exact (h.used j hj x k ho hk hd).imp_right (hsucceeded x)

theorem Change.leasesOk (h : Change p b t) (hc : Core none p) (hr : RequestsOk p)
    (ho : ConnectionsOk p) (hl : LeasesOk p) : LeasesOk t := by
  have hsucceeded : ∀ x, p.Succeeded x → t.Succeeded x := fun x => h.succeeded hc
  have hqueue : ∀ {r}, r ∈ p.queue → ∀ j < p.connections, (p.slots j).lease ≠ some r :=
    fun hq j hj hl => hc.not_mem_queue_of_lease hj hl hq
  have hadmitted : ∀ j < p.connections, (p.slots j).lease ≠ some p.admitted :=
    fun j hj hl => lt_irrefl _ (hc.leased j hj _ hl)
  -- a request that no lease names may change freely
  have hne : ∀ {r}, (∀ j < p.connections, (p.slots j).lease ≠ some r) → ∀ q : Request X V,
      ∀ j < p.connections, ∀ x, (p.slots j).lease = some x →
        SameOutcome (p.requests x) (Function.update p.requests r q x) :=
    fun hfree q j hj x hx => .update fun he => absurd (he ▸ hx) (hfree j hj)
  have hexecution : ∀ (r : ℕ) (e : Execution) (x : ℕ),
      SameOutcome (p.requests x) (Function.update p.requests r ((p.requests r).execution e) x) :=
    fun r e x => .update fun _ => ⟨rfl, rfl⟩
  cases h with
  -- an admitted request has no lease yet
  | join operation hlife hroom =>
    refine hl.same rfl rfl (fun _ _ => .rfl) (fun _ => id) (fun _ => .refl _)
      (fun j hj x hx _ => ?_) hsucceeded
    rw [requests_join]
    exact hne hadmitted _ j hj x hx
  -- a request and its connection meet: neither had a lease before
  | @serveNew i c operation hi hs hlease hown hq =>
    refine hl.serve hi hlease hown (ho.owner i hi c hown)
      (fun j hj hk => ho.unique j hj i hi c hk hown)
      (fun k hk => lt_irrefl _ (hr.dispatched _ k hk).1) hadmitted rfl rfl rfl rfl
      (fun j hj x hx => ?_) hsucceeded
    rw [requests_serveNew]
    exact hne hadmitted _ j hj x hx
  | @serve i c r rest operation hi hs hlease hown hq =>
    have hmem : r ∈ p.queue := hq ▸ List.mem_cons_self
    refine hl.serve hi hlease hown (ho.owner i hi c hown)
      (fun j hj hk => ho.unique j hj i hi c hk hown)
      (fun k hk => lt_irrefl _ ((hr.dispatched r k hk).2 r hmem)) (hqueue hmem) rfl rfl rfl rfl
      (fun j hj x hx => ?_) hsucceeded
    rw [requests_serve]
    exact hne (hqueue hmem) _ j hj x hx
  -- a request in the queue has no lease
  | @withdraw r hmem =>
    refine hl.same rfl rfl (fun _ _ => mem_cons_of_ne Event.noConfusion)
      (fun _ => List.mem_cons_of_mem _) (fun _ => .refl _) (fun j hj x hx _ => ?_) hsucceeded
    rw [requests_withdraw]
    exact hne (hqueue hmem) _ j hj x hx
  | @refuse r rest hq =>
    have hmem : r ∈ p.queue := hq ▸ List.mem_cons_self
    refine hl.same rfl rfl (fun _ _ => mem_cons_of_ne Event.noConfusion)
      (fun _ => List.mem_cons_of_mem _) (fun _ => .refl _) (fun j hj x hx _ => ?_) hsucceeded
    rw [requests_refuse]
    exact hne (hqueue hmem) _ j hj x hx
  -- the cancelled request has no idle slot, so that its lease says nothing of success
  | @latch i r hi hlease hs =>
    refine hl.same rfl rfl (fun _ _ => .rfl) (fun _ => id) (fun _ => .refl _)
      (fun j hj x hx hidle => ?_) hsucceeded
    refine SameOutcome.update (q := (p.requests r).latch) fun he => ?_
    rw [he] at hx
    exact absurd (hc.lease j hj i hi r hx hlease ▸ hidle) hs
  | @enter i w hi hw ha hg =>
    exact hl.same rfl rfl (fun _ _ => mem_cons_of_ne Event.noConfusion)
      (fun _ => List.mem_cons_of_mem _) (SameLease.update (.reach _ _))
      (fun _ _ x _ _ => hexecution w.request .executing x) hsucceeded
  | @bypass i w hi hw ha hg =>
    exact hl.same rfl rfl (fun _ _ => .rfl) (fun _ => id) (SameLease.update (.reach _ _))
      (fun _ _ x _ _ => hexecution w.request .returned x) hsucceeded
  | @leave i w result hi hw ha =>
    exact hl.same rfl rfl (fun _ _ => .rfl) (fun _ => id) (SameLease.update (.reach _ _))
      (fun _ _ x _ _ => hexecution w.request .returned x) hsucceeded
  | @abandon i w x hi hw ha =>
    exact hl.same rfl rfl (fun _ _ => .rfl) (fun _ => id) (SameLease.update (.reach _ _))
      (fun _ _ _ _ _ => ⟨rfl, rfl⟩) hsucceeded
  -- the slot is idle after its work only if the request has succeeded and was not cancelled
  | @settle i w result a hi hw hstage ha =>
    refine hl.settle hc hi hw (fun hidle => ?_) hsucceeded
    rcases ha with rfl | ⟨-, hok, hlatched, -⟩
    · cases hidle
    · exact ⟨hok, hlatched⟩
  | @finishLease i r outcome hi hs hlease hout =>
    exact hl.finishLease hc ho hi hs hlease hout hsucceeded
  | @cleanup i r outcome result hi hs hlease hout =>
    refine hl.same rfl rfl (fun _ _ => .rfl) (fun _ => id) (fun _ => .refl _)
      (fun j hj x hx hidle => ?_) hsucceeded
    refine SameOutcome.update (q := (p.requests r).addCleanup result outcome) fun he => ?_
    rw [he] at hx
    have hidle : (p.slots i).state = .idle := hc.lease j hj i hi r hx hlease ▸ hidle
    rcases hs with hs | hs <;> cases hs.symm.trans hidle
  | drain | skip =>
    exact hl.same rfl rfl (fun _ _ => .rfl) (fun _ => id) (SameLease.update (.become _ nofun))
      (fun _ _ _ _ _ => ⟨rfl, rfl⟩) hsucceeded
  | startConnect =>
    exact hl.same rfl rfl (fun _ _ => .rfl) (fun _ => id) (SameLease.update (.become _ nofun))
      (fun _ _ _ _ _ => ⟨rfl, rfl⟩) hsucceeded
  | startClose =>
    exact hl.same rfl rfl (fun _ _ => mem_cons_of_ne Event.noConfusion)
      (fun _ => List.mem_cons_of_mem _) (SameLease.update (.become _ nofun))
      (fun _ _ _ _ _ => ⟨rfl, rfl⟩) hsucceeded
  | startDatabase =>
    exact hl.same rfl rfl (fun _ _ => mem_cons_of_ne Event.noConfusion)
      (fun _ => List.mem_cons_of_mem _) (fun _ => .refl _) (fun _ _ _ _ _ => ⟨rfl, rfl⟩) hsucceeded
  -- a slot changes its connection: the old one is closed, the new one has served nobody
  | @closed i c a hm ha =>
    obtain ⟨hi, hs, hown⟩ := hc.of_closeSlot hm
    refine hl.replace (s := (p.slots i).disown.become a)
      ((hc.slot i hi).free (hs ▸ by decide)).1 rfl (fun k hk => ?_) nofun rfl le_rfl
      (fun _ _ => mem_cons_of_ne Event.noConfusion) (fun _ => List.mem_cons_of_mem _)
      (slots_closed i c a p) rfl rfl
    cases hk.symm.trans hown
    exact List.mem_cons_self
  | closeFailed hm =>
    exact hl.same rfl rfl (fun _ _ => mem_cons_of_ne Event.noConfusion)
      (fun _ => List.mem_cons_of_mem _) (SameLease.update (.become _ nofun))
      (fun _ _ _ _ _ => ⟨rfl, rfl⟩) hsucceeded
  | @connected i a hm ha =>
    obtain ⟨hi, hs, hown⟩ := hc.of_connect hm
    refine hl.replace (s := ((p.slots i).own p.opened).become a)
      ((hc.slot i hi).free (hs ▸ by decide)).1 rfl (fun k hk => ?_) (fun k hk x hx => ?_) rfl
      (Nat.le_succ _) (fun _ _ => mem_cons_of_ne Event.noConfusion)
      (fun _ => List.mem_cons_of_mem _) (slots_connected i a p) rfl rfl
    · cases hk.symm.trans hown
    · cases hk
      exact lt_irrefl _ (hl.opened x _ hx)
  | connectFailed hm =>
    exact hl.same rfl rfl (fun _ _ => .rfl) (fun _ => id) (SameLease.update (.become _ nofun))
      (fun _ _ _ _ _ => ⟨rfl, rfl⟩) hsucceeded
  | databaseClosed | beginStop | poolFailure =>
    exact hl.same rfl rfl (fun _ _ => .rfl) (fun _ => id) (fun _ => .refl _)
      (fun _ _ _ _ _ => ⟨rfl, rfl⟩) hsucceeded
  | slotFailure i f =>
    exact hl.same rfl rfl (fun _ _ => .rfl) (fun _ => id)
      (SameLease.update (s := (p.slots i).addFailure f)
        ⟨rfl, rfl, fun w hw => ⟨w, hw, rfl, rfl⟩, id⟩)
      (fun _ _ _ _ _ => ⟨rfl, rfl⟩) hsucceeded

/-! ### The log -/

theorem SlotState.closeFailed_of_over {a : SlotState} (hover : a.over = true)
    (howns : a.owns = true) : a = .closeFailed := by
  revert hover howns
  cases a <;> decide

/-- A request may be dispatched to an idle slot. -/
theorem allowed_dispatched {ok : ℕ → Prop} (ho : ConnectionsOk p) (hl : LeasesOk p)
    (hr : RequestsOk p) (hi : i < p.connections) (hs : (p.slots i).state = .idle)
    (hlease : (p.slots i).lease = none) (hown : (p.slots i).owner = some c)
    (hfinished : .finished r ∉ p.log) (hlater : ∀ x k, .dispatched x k ∈ p.log → x < r)
    (hok : ∀ x, p.Succeeded x → ok x) : Allowed ok p.log (.dispatched r c) := by
  have hclosing : .closing c ∉ p.log := (ho.closing i hi c hown).not.mpr (by rw [hs]; decide)
  refine ⟨(ho.opened c).mpr (ho.owner i hi c hown), hclosing, hfinished, hlater, fun x hx => ?_⟩
  have hx := (hl.used i hi x c hown hclosing hx).resolve_left
    (by rw [hlease]; exact (Option.some_ne_none x).symm)
  refine ⟨hok x hx, (hr.finished x).mpr ⟨hx.1, ?_⟩⟩
  obtain ⟨v, hv⟩ := hx.2
  rw [hv]
  rfl

/-- **What a change records is allowed.** -/
theorem Change.legal (h : Change p b t) (hc : Core none p) (hr : RequestsOk p)
    (ho : ConnectionsOk p) (hl : LeasesOk p) (hlegal : Legal (Allowed p.Succeeded) p.log) :
    Legal (Allowed t.Succeeded) t.log := by
  -- what has succeeded stays so, and what was allowed stays allowed
  have hok : ∀ x, p.Succeeded x → t.Succeeded x := fun x => h.succeeded hc
  have hsame : Legal (Allowed t.Succeeded) p.log := hlegal.mono fun k e => Allowed.mono hok
  have hunfinished : ∀ {r}, (p.requests r).result = none → .finished r ∉ p.log := fun hn hf => by
    have he := ((hr.finished _).mp hf).2
    rw [hn] at he
    cases he
  -- a request that waits can be finished: it has not been dispatched
  have hqueued : ∀ {r}, r ∈ p.queue → Allowed t.Succeeded p.log (.finished r) := fun hq =>
    ⟨hunfinished (hc.result_of_queue hq), fun k hd =>
      absurd ((hr.dispatched _ k hd).2 _ hq) (lt_irrefl _)⟩
  cases h with
  | serveNew operation hi hs hlease hown hq =>
    exact hsame.cons (allowed_dispatched ho hl hr hi hs hlease hown
      (fun hf => lt_irrefl _ ((hr.finished _).mp hf).1)
      (fun x k hd => (hr.dispatched x k hd).1) hok)
  | @serve i c r rest operation hi hs hlease hown hq =>
    have hmem : r ∈ p.queue := hq ▸ List.mem_cons_self
    exact hsame.cons (allowed_dispatched ho hl hr hi hs hlease hown
      (hunfinished (hc.result_of_queue hmem)) (fun x k hd => (hr.dispatched x k hd).2 r hmem) hok)
  | withdraw hmem => exact hsame.cons (hqueued hmem)
  | refuse hq => exact hsame.cons (hqueued (hq ▸ List.mem_cons_self))
  -- it enters once, on the connection it was dispatched to, which is not closing
  | @enter i w hi hw ha hg =>
    obtain ⟨hs, -, hgiven⟩ := hc.of_work hi hw
    obtain ⟨hown, hd⟩ := hl.work i hi w hw
    refine hsame.cons ⟨hd, (ho.closing i hi _ hown).not.mpr (by rw [hs]; decide),
      hunfinished hgiven.result, fun k hk => (hr.entered _ k hk).2 (hgiven.entry ha)⟩
  -- a success leaves the connection open, and anything else has closed it
  | @finishLease i r outcome hi hs hlease hout =>
    refine hsame.cons ⟨hunfinished (hc.of_lease hi hlease).2, fun k hd => ?_⟩
    refine (hl.ended hc ho hi hs hlease hd).imp_right ?_
    rintro ⟨⟨v, hv⟩, hlatched⟩
    cases hout.symm.trans hv
    exact succeeded_finished (hc.leased i hi r hlease) hlatched
  | @startClose i c hi hs hown hm =>
    refine hsame.cons ⟨(ho.opened c).mpr (ho.owner i hi c hown),
      (ho.closing i hi c hown).not.mpr (by rw [hs]; decide), fun k hk =>
        (ho.pending k hk).resolve_right ?_⟩
    rintro ⟨j, he⟩
    cases hm.symm.trans he
  -- every connection has been closed, as its slot says
  | startDatabase hlife hover hm =>
    refine hsame.cons ⟨ho.database.not.mpr ?_, fun k hk => ?_⟩
    · rw [hm, hlife]
      exact not_or.mpr ⟨nofun, nofun⟩
    · refine (ho.kept k ((ho.opened k).mp hk)).elim id ?_
      rintro ⟨j, hj, hown⟩
      have howns := (hc.slot j hj).owner
      rw [hown] at howns
      exact (ho.closed j hj k hown).mpr (SlotState.closeFailed_of_over (hover j hj) howns.symm)
  | @closed i c a hm ha =>
    obtain ⟨hi, hs, hown⟩ := hc.of_closeSlot hm
    exact hsame.cons ⟨(ho.closing i hi c hown).mpr (.inl hs),
      (ho.closed i hi c hown).not.mpr (by rw [hs]; decide)⟩
  | @closeFailed i c hm =>
    obtain ⟨hi, hs, hown⟩ := hc.of_closeSlot hm
    exact hsame.cons ⟨(ho.closing i hi c hown).mpr (.inl hs),
      (ho.closed i hi c hown).not.mpr (by rw [hs]; decide)⟩
  -- the connection is new, and the database has not been closed
  | @connected i a hm ha =>
    obtain ⟨hi, hs, hown⟩ := hc.of_connect hm
    refine hsame.cons ⟨fun hopened => lt_irrefl _ ((ho.opened _).mp hopened), fun hd => ?_⟩
    have hover := ho.allOver hd i hi
    rw [hs] at hover
    cases hover
  -- the others record nothing
  | join | latch | bypass | leave | abandon | settle | cleanup | drain | skip | startConnect
  | connectFailed | databaseClosed | beginStop | poolFailure | slotFailure => exact hsame

end DuckdbMl.AsyncPool
