import DuckdbMl.AsyncPool.Core

/-!
# The end of the pool, and dispatch

## Main definitions

* `Mid p`: what holds of the pool also in the middle of a handler
* `Steady p`: what holds of the pool between handlers

## Main results

* `stop_spec`, `dispatchWaiting_spec`: the functions that re-enter one another do not fail, and keep
  `Mid`
-/

namespace DuckdbMl.AsyncPool

open Pool.Async (Answer combine)

variable {X V : Type} {p t : Pool X V} {i r : ℕ} {d : Option ℕ}

/-- A slot that no function of the scheduler touches but the handler of its completion. -/
def SlotState.settled : SlotState → Bool
  | .idle | .needsClose | .needsConnect => false
  | .leased | .closing | .connecting | .closed | .closeFailed => true

/-- What the end of the pool and the maintenance make of a slot. -/
structure Moved (s s' : Slot X V) : Prop where
  settled : s.state.settled = true → s' = s
  done : s'.state.done = true → s' = s ∨ s'.lease = none
  free : s'.state = .idle ∨ s'.state = .needsConnect → s' = s

theorem Moved.refl (s : Slot X V) : Moved s s := ⟨fun _ => rfl, fun _ => .inl rfl, fun _ => rfl⟩

theorem Moved.trans {s s' s'' : Slot X V} (h : Moved s s') (h' : Moved s' s'') :
    Moved s s'' where
  settled hs := by
    have he := h.settled hs
    rw [h'.settled (he ▸ hs), he]
  done hd := by
    rcases h'.done hd with he | hl
    · rcases h.done (he ▸ hd) with he' | hl
      · exact .inl (he.trans he')
      · exact .inr (he ▸ hl)
    · exact .inr hl
  free hs := by
    have he := h'.free hs
    exact he.trans (h.free (he ▸ hs))

theorem Advanced.moved {s s' : Slot X V} (h : Advanced s s') : Moved s s' := by
  rcases h with rfl | ⟨hneeds, h⟩
  · exact .refl _
  · have hs : s.state.settled = false := by
      cases he : s.state <;> simp [he, SlotState.needsMaintenance] at hneeds <;> rfl
    refine ⟨fun hc => absurd (hs.symm.trans hc) Bool.false_ne_true, fun hd => ?_, fun hf => ?_⟩
    · rcases h with rfl | rfl <;> cases hd
    · rcases h with rfl | rfl <;> rcases hf with hf | hf <;> cases hf

theorem Advanced.over {s s' : Slot X V} (h : Advanced s s') (ho : s.state.over = false) :
    s'.state.over = false := by
  rcases h with rfl | ⟨-, rfl | rfl⟩
  · exact ho
  · rfl
  · rfl

theorem Slot.moved_stopped (s : Slot X V) : Moved s s.stopped := by
  rw [Slot.stopped]
  cases hs : s.state with
  | idle =>
    refine ⟨fun hc => ?_, (fun he => by cases he), fun hf => ?_⟩
    · rw [hs] at hc
      cases hc
    · rcases hf with hf | hf <;> cases hf
  | needsConnect =>
    refine ⟨fun hc => ?_, fun _ => .inr rfl, fun hf => ?_⟩
    · rw [hs] at hc
      cases hc
    · rcases hf with hf | hf <;> cases hf
  | leased | needsClose | closing | connecting | closed | closeFailed => exact .refl s

/-- What holds also in the middle of a handler. -/
structure Mid (p : Pool X V) : Prop where
  core : Core none p
  halted : p.lifecycle ≠ .accepting → p.queue = [] ∧ ∀ i < p.connections,
    (p.slots i).state ≠ .idle ∧ (p.slots i).state ≠ .needsConnect
  database : p.maintenance = some .closeDatabase →
    p.lifecycle = .stopping ∧ ∀ i < p.connections, (p.slots i).state.over = true
  ended : p.lifecycle = .stopped →
    p.maintenance = none ∧ ∀ i < p.connections, (p.slots i).state.over = true
  result : p.shutdownResult.isSome = true ↔ p.lifecycle = .stopped
  capacity : p.queue.length ≤ p.queueCapacity

/-- **What holds between handlers.** -/
structure Steady (p : Pool X V) : Prop where
  mid : Mid p
  released : ∀ i < p.connections, (p.slots i).state.done = true → (p.slots i).lease = none
  fed : p.queue ≠ [] → ∀ i < p.connections, (p.slots i).state ≠ .idle
  alive : p.lifecycle = .accepting → ∀ i < p.connections, (p.slots i).state.over = false
  pumped : Pumped p

theorem SlotState.settled_of_over {a : SlotState} (h : a.over = true) : a.settled = true := by
  cases a <;> first | rfl | cases h

theorem SlotState.needsMaintenance_of_over {a : SlotState} (h : a.over = true) :
    a.needsMaintenance = false := by
  cases a <;> first | rfl | cases h

/-! ### The end of the pool -/

/-- Slots that have moved, and nothing else of what `Mid` is about. -/
theorem Mid.of_moved (h : Mid p) (hcore : Core none t) (hframe : Frame p t)
    (hqueue : t.queue = p.queue) (hslots : ∀ j, Moved (p.slots j) (t.slots j))
    (hdatabase : t.maintenance = some .closeDatabase → p.maintenance = some .closeDatabase ∨
      p.lifecycle = .stopping ∧ ∀ j < p.connections, (p.slots j).state.over = true)
    (hended : p.lifecycle = .stopped → t.maintenance = p.maintenance) : Mid t := by
  -- a slot that is over does not move
  have hover : (∀ j < p.connections, (p.slots j).state.over = true) →
      ∀ j < t.connections, (t.slots j).state.over = true := fun ho j hj => by
    have hj := ho j (hframe.connections ▸ hj)
    rw [(hslots j).settled (SlotState.settled_of_over hj)]
    exact hj
  refine ⟨hcore, fun hl => ?_, fun hm => ?_, fun hl => ?_, ?_, ?_⟩
  · rw [hframe.lifecycle] at hl
    refine ⟨hqueue.trans (h.halted hl).1, fun j hj => ?_⟩
    have hold := (h.halted hl).2 j (hframe.connections ▸ hj)
    exact ⟨fun he => hold.1 ((hslots j).free (.inl he) ▸ he),
      fun he => hold.2 ((hslots j).free (.inr he) ▸ he)⟩
  · rw [hframe.lifecycle]
    rcases hdatabase hm with hm | hm
    · exact ⟨(h.database hm).1, hover (h.database hm).2⟩
    · exact ⟨hm.1, hover hm.2⟩
  · rw [hframe.lifecycle] at hl
    exact ⟨(hended hl).trans (h.ended hl).1, hover (h.ended hl).2⟩
  · rw [hframe.lifecycle, hframe.shutdownResult]
    exact h.result
  · rw [hqueue, hframe.queueCapacity]
    exact h.capacity

/-- Nothing that `Mid` is about. -/
theorem Mid.of_same (h : Mid p) (hcore : Core none t) (hframe : Frame p t)
    (hqueue : t.queue = p.queue) (hstates : ∀ j, (t.slots j).state = (p.slots j).state)
    (hm : t.maintenance = p.maintenance) : Mid t := by
  refine ⟨hcore, fun hl => ?_, fun he => ?_, fun hl => ?_, ?_, ?_⟩
  · rw [hframe.lifecycle] at hl
    refine ⟨hqueue.trans (h.halted hl).1, fun j hj => ?_⟩
    rw [hstates]
    exact (h.halted hl).2 j (hframe.connections ▸ hj)
  · rw [hframe.lifecycle]
    have hd := h.database (hm ▸ he)
    exact ⟨hd.1, fun j hj => (hstates j).symm ▸ hd.2 j (hframe.connections ▸ hj)⟩
  · rw [hframe.lifecycle] at hl
    have hd := h.ended hl
    exact ⟨hm.trans hd.1, fun j hj => (hstates j).symm ▸ hd.2 j (hframe.connections ▸ hj)⟩
  · rw [hframe.lifecycle, hframe.shutdownResult]
    exact h.result
  · rw [hqueue, hframe.queueCapacity]
    exact h.capacity

theorem Mid.pump (h : Mid p) : ∃ t, pump p = some t ∧ Mid t ∧ Frame p t ∧ t.queue = p.queue ∧
    (∀ j, Moved (p.slots j) (t.slots j)) ∧
      (∀ j, (p.slots j).state.over = false → (t.slots j).state.over = false) ∧
        Pumped t ∧ Changes p t := by
  obtain ⟨t, ht, hc, hf, hq, hslots, hm, hp, hchanges⟩ := pump_spec h.core
  refine ⟨t, ht, h.of_moved hc hf hq (fun j => (hslots j).moved) hm fun hl => ?_, hf, hq,
    fun j => (hslots j).moved, fun j => (hslots j).over, hp, hchanges⟩
  -- a pool that has stopped has nothing to start
  obtain ⟨hmaintenance, hover⟩ := h.ended hl
  have hb : p.maintenanceBusy = false := by rw [h.core.busy, hmaintenance]; rfl
  have hnone : (List.range p.connections).find?
      (fun i => (p.slots i).state.needsMaintenance) = none := by
    refine List.find?_eq_none.mpr fun i hi => ?_
    rw [SlotState.needsMaintenance_of_over (hover i (List.mem_range.mp hi))]
    exact Bool.false_ne_true
  have hsame : AsyncPool.pump p = some p := by
    rw [AsyncPool.pump, hb, hnone, hl]
    rfl
  rw [Option.some.inj (ht.symm.trans hsame)]

/-- The slots of a pool that begins to stop. -/
theorem eachSlot_stopSlot (h : Core none p) (hlife : p.lifecycle = .stopping)
    (hidle : ∀ j < p.connections, (p.slots j).state = .idle → (p.slots j).lease = none) : ∃ t,
    eachSlot stopSlot (List.range p.connections) p = some t ∧ Core none t ∧ Frame p t ∧
      t.queue = p.queue ∧ t.maintenance = p.maintenance ∧
        (∀ j < p.connections, t.slots j = (p.slots j).stopped) ∧ Changes p t := by
  obtain ⟨t, ht, hc, hf, hq, hm, hdone, -, hchanges⟩ :=
    eachSlot_range (n := p.connections) (p := p)
    -- the slots before `i` are stopped, and the others as they were
    (I := fun i t => Core none t ∧ Frame p t ∧ t.queue = p.queue ∧ t.maintenance = p.maintenance ∧
      (∀ j < i, t.slots j = (p.slots j).stopped) ∧ (∀ j, i ≤ j → t.slots j = p.slots j) ∧
        Changes p t)
    (by
      rintro i hi u ⟨hc, hf, hq, hm, hdone, hrest, hchanges⟩
      obtain ⟨t, ht, hct, hft, hst, hqt, hmt, hstop⟩ := stopSlot_spec hc (hf.connections ▸ hi)
        (hf.lifecycle.trans hlife) (by rw [hrest i le_rfl]; exact hidle i hi)
      refine ⟨t, ht, hct, hf.trans hft, hqt.trans hq, hmt.trans hm, fun j hj => ?_,
        fun j hj => ?_, hchanges.trans hstop⟩
      · rw [hst]
        by_cases hji : j = i
        · rw [hji, Function.update_self, hrest i le_rfl]
        · rw [Function.update_of_ne hji]
          exact hdone j (by omega)
      · rw [hst, Function.update_of_ne (by omega)]
        exact hrest j (by omega))
    ⟨h, .refl p, rfl, rfl, nofun, fun _ _ => rfl, .refl⟩
  exact ⟨t, ht, hc, hf, hq, hm, hdone, hchanges⟩

theorem Slot.stopped_halted (s : Slot X V) :
    s.stopped.state ≠ .idle ∧ s.stopped.state ≠ .needsConnect := by
  rw [Slot.stopped]
  cases hs : s.state <;> simp [hs, Slot.become, Slot.release]

/-- **The end of the pool begins**: the queue is cleared, and nothing fails. -/
theorem stop_spec (h : Mid p)
    (hidle : ∀ j < p.connections, (p.slots j).state = .idle → (p.slots j).lease = none) :
    ∃ t, stop p = some t ∧ Mid t ∧ t.connections = p.connections ∧ t.lifecycle ≠ .accepting ∧
      (∀ j < p.connections, Moved (p.slots j) (t.slots j)) ∧
        (p.lifecycle = .accepting → Pumped t) ∧ (p.lifecycle ≠ .accepting → t = p) ∧
          Changes p t := by
  cases hl : p.lifecycle with
  -- a pool that stops already is left as it is
  | stopping | stopped =>
    exact ⟨p, by rw [stop, hl], h, rfl, hl ▸ nofun, fun j _ => .refl _, nofun, fun _ => rfl, .refl⟩
  | accepting =>
    have hbegin : Core none p.beginStop := by
      refine ⟨h.core.slot, h.core.lease, h.core.leased, h.core.nodup, h.core.queue,
        fun x hx hd => ?_, nofun, h.core.busy, h.core.maintenance⟩
      have hp := h.core.placed x hx hd
      exact ⟨hp.queued, hp.leased, hp.finished⟩
    -- the queue is cleared, and each slot stopped
    obtain ⟨u, hu, hcu, hfu, hsu, hqu, hmu, hclear⟩ := clear_spec hbegin rfl
    obtain ⟨v, hv, hcv, hfv, hqv, hmv, hsv, hstop⟩ := eachSlot_stopSlot hcu hfu.lifecycle
      (by rw [hsu]; exact fun j hj => hidle j (hfu.connections ▸ hj))
    have hconnections : v.connections = p.connections := hfv.connections.trans hfu.connections
    have hlife : v.lifecycle = .stopping := hfv.lifecycle.trans hfu.lifecycle
    have hmaintenance : v.maintenance = p.maintenance := hmv.trans hmu
    have hslots : ∀ j < p.connections, v.slots j = (p.slots j).stopped := fun j hj => by
      rw [hsv j (hfu.connections ▸ hj), hsu]
      rfl
    -- nothing waits and no slot is idle, as a pool that stops has it
    have hmid : Mid v := by
      refine ⟨hcv, fun _ => ⟨hqv.trans hqu, fun j hj => ?_⟩, fun hm => ?_, fun he => ?_, ?_, ?_⟩
      · rw [hslots j (hconnections ▸ hj)]
        exact Slot.stopped_halted _
      · have hd := h.database (hmaintenance ▸ hm)
        rw [hl] at hd
        cases hd.1
      · rw [hlife] at he
        cases he
      · have hr : v.shutdownResult = p.shutdownResult :=
          hfv.shutdownResult.trans hfu.shutdownResult
        rw [hr, h.result, hl, hlife]
        exact iff_of_false nofun nofun
      · rw [hqv, hqu]
        exact Nat.zero_le _
    -- and the maintenance begins to close what is open
    obtain ⟨t, ht, hmt, hft, hqt, hst, -, hpt, hpump⟩ := hmid.pump
    refine ⟨t, ?_, hmt, hft.connections.trans hconnections, ?_, fun j hj => ?_, fun _ => hpt,
      (absurd rfl ·), (Relation.ReflTransGen.head ⟨h.core, _, .beginStop hl⟩ hclear).trans
        (hstop.trans hpump)⟩
    · rw [stop, hl]
      dsimp only
      have hu : clear p.queue p.beginStop = some u := hu
      have hn : u.connections = p.connections := hfu.connections
      rw [hu, Option.bind_some, hv, Option.bind_some, ht]
    · rw [hft.lifecycle, hlife]
      exact nofun
    · have hmoved := hst j
      rw [hslots j hj] at hmoved
      exact (Slot.moved_stopped _).trans hmoved

/-! ### Dispatch -/

/-- **A request that is nowhere is dispatched** to an idle slot. -/
theorem dispatch_spec (h : Core (some r) p) (hi : i < p.connections)
    (hs : (p.slots i).state = .idle) (hl : (p.slots i).lease = none)
    (hr : Waiting (p.requests r)) : ∃ c operation, (p.slots i).owner = some c ∧
      (p.requests r).operation = some operation ∧
        dispatch i r p = some (p.given i r c operation) ∧ Core none (p.given i r c operation) ∧
        (∀ j ≠ i, (p.given i r c operation).slots j = p.slots j) ∧
          ((p.given i r c operation).slots i).state = .leased := by
  have hok := h.slot i hi
  -- an idle slot has a connection and no work, and a waiting request has its operation
  obtain ⟨c, hc⟩ := Option.isSome_iff_exists.mp (hok.owner.trans (hs ▸ rfl))
  obtain ⟨operation, ho⟩ := Option.isSome_iff_exists.mp hr.operation
  have hw := (hok.free (hs ▸ by decide)).1
  obtain ⟨hadmitted, hqueue, hlease, hresult⟩ := h.dangling r rfl
  have hother : ∀ j, j ≠ i → (p.modifySlot i (Slot.give r c operation)).slots j = p.slots j :=
    fun j hj => Pool.slots_modifySlot_of_ne hj ..
  have hself : (p.modifySlot i (Slot.give r c operation)).slots i =
      Slot.give r c operation (p.slots i) := Pool.slots_modifySlot_self ..
  -- the one new lease is that of the request
  have hcases : ∀ j x, ((p.modifySlot i (Slot.give r c operation)).slots j).lease = some x →
      j = i ∧ x = r ∨ j ≠ i ∧ (p.slots j).lease = some x := by
    intro j x hx
    by_cases hj : j = i
    · subst hj
      rw [hself] at hx
      exact .inl ⟨rfl, (Option.some.inj hx).symm⟩
    · rw [hother j hj] at hx
      exact .inr ⟨hj, hx⟩
  have hrequest : ∀ x, x ≠ r → ((p.modifySlot i (Slot.give r c operation)).modifyRequest r
      Request.dispatch).requests x = p.requests x := fun x hx =>
    Pool.requests_modifyRequest_of_ne hx ..
  have hgiven : ((p.modifySlot i (Slot.give r c operation)).modifyRequest r
      Request.dispatch).requests r = (p.requests r).dispatch :=
    Pool.requests_modifyRequest_self ..
  refine ⟨c, operation, hc, ho, ?_, Core.record ?_ _, hother, congrArg Slot.state hself⟩
  · rw [dispatch, hc, ho, hw]
    rfl
  · refine ⟨fun j hj => ?_, fun j hj k hk x hjx hkx => ?_, fun j hj x hjx => ?_, h.nodup,
      fun x hx => ?_, fun x hx _ => ?_, nofun, h.busy, h.maintenance⟩
    -- the slot has the work of the request, which has not been executed
    · change SlotOk _ p.maintenance j ((p.modifySlot i (Slot.give r c operation)).slots j)
      by_cases hji : j = i
      · subst hji
        rw [hself]
        refine ⟨hok.owner.trans (hs ▸ rfl), fun _ => ⟨_, rfl, rfl, ?_⟩, fun hn => absurd rfl hn,
          nofun, nofun, fun _ _ => hok.unmaintained (hs ▸ by decide) (hs ▸ by decide)⟩
        rw [hgiven]
        exact ⟨rfl, hresult, fun _ => hr.execution⟩
      · rw [hother j hji]
        refine (h.slot j hj).of_requests fun x hx => hrequest x ?_
        rintro rfl
        exact hlease j hj hx
    -- no other slot has the request
    · rcases hcases j x hjx with ⟨rfl, rfl⟩ | ⟨hji, hj'⟩ <;>
        rcases hcases k x hkx with ⟨rfl, hxr⟩ | ⟨hki, hk'⟩
      · rfl
      · exact absurd hk' (hlease k hk)
      · subst hxr
        exact absurd hj' (hlease j hj)
      · exact h.lease j hj k hk x hj' hk'
    · rcases hcases j x hjx with ⟨-, rfl⟩ | ⟨-, hj'⟩
      · exact hadmitted
      · exact h.leased j hj x hj'
    · have hne : x ≠ r := fun he => hqueue (he ▸ hx)
      rw [hrequest x hne]
      exact h.queue x hx
    -- the place of the request is its lease now, and no other place changes
    · by_cases hxr : x = r
      · subst hxr
        refine ⟨fun hstate => ?_, fun _ => ⟨i, hi, ?_⟩, ?_⟩
        · rw [hgiven] at hstate
          cases hstate
        · exact congrArg Slot.lease hself
        · rw [hgiven]
          exact iff_of_false nofun (by change ¬ (p.requests x).result.isSome = true; simp [hresult])
      · have hp := h.placed x hx fun he => hxr (Option.some.inj he).symm
        refine ⟨fun hstate => hp.queued (hrequest x hxr ▸ hstate), fun hstate => ?_, ?_⟩
        · obtain ⟨j, hj, hjx⟩ := hp.leased (hrequest x hxr ▸ hstate)
          refine ⟨j, hj, ?_⟩
          have hji : j ≠ i := by
            rintro rfl
            cases hl.symm.trans hjx
          exact (congrArg Slot.lease (hother j hji)).trans hjx
        · rw [hrequest x hxr]
          exact hp.finished

/-- One slot is fed. -/
theorem dispatchSlot_spec (h : Core none p) (hi : i < p.connections)
    (hl : (p.slots i).state = .idle → (p.slots i).lease = none) :
    ∃ t, dispatchSlot i p = some t ∧ Core none t ∧ Frame p t ∧
      t.queue.length ≤ p.queue.length ∧ t.maintenance = p.maintenance ∧
        t.maintenanceBusy = p.maintenanceBusy ∧ (∀ j ≠ i, t.slots j = p.slots j) ∧
          (t.slots i = p.slots i ∨ (p.slots i).state = .idle ∧ (t.slots i).state = .leased) ∧
            ((t.slots i).state = .idle → t.queue = []) ∧ (p.queue = [] → t.queue = []) ∧
              Changes p t := by
  cases hs : (p.slots i).state with
  | idle =>
    cases hq : p.queue with
    -- nobody waits
    | nil =>
      exact ⟨p, by rw [dispatchSlot, hs, hq], h, .refl p, by rw [hq], rfl, rfl, fun _ _ => rfl,
        .inl rfl, fun _ => hq, fun _ => hq, .refl⟩
    -- the first request is taken out of the queue, and dispatched
    | cons r rest =>
      have hr : r ∈ p.queue := hq ▸ List.mem_cons_self
      have herase : p.queue.erase r = rest := by rw [hq, List.erase_cons_head]
      have hcore := h.removeFirst hr
      rw [herase] at hcore
      have hwaiting : Waiting ((p.removeFirst r rest).requests r) := by
        rw [Pool.removeFirst, Pool.requests_modifyRequest_self]
        have hw := (h.queue r hr).2.2
        exact ⟨hw.state, hw.result, hw.operation, hw.execution⟩
      obtain ⟨c, operation, hown, -, ht, hc, hother, hself⟩ :=
        dispatch_spec hcore hi hs (hl hs) hwaiting
      refine ⟨_, ?_, hc, ⟨rfl, rfl, rfl, rfl⟩, Nat.le_succ _, rfl, rfl, hother,
        .inr ⟨rfl, hself⟩, fun he => ?_, (fun he => by cases he),
        h.changes (.serve operation hi hs (hl hs) hown hq)⟩
      · rw [dispatchSlot, hs, hq]
        exact ht
      · rw [hself] at he
        cases he
  -- only an idle slot is fed
  | leased | needsClose | closing | needsConnect | connecting | closed | closeFailed =>
    refine ⟨p, by rw [dispatchSlot, hs], h, .refl p, le_rfl, rfl, rfl, fun _ _ => rfl, .inl rfl,
      fun he => ?_, id, .refl⟩
    rw [hs] at he
    cases he

/-- **Idle slots are fed** while there are requests in the queue. -/
theorem dispatchWaiting_spec (h : Core none p)
    (hl : ∀ i < p.connections, (p.slots i).state = .idle → (p.slots i).lease = none)
    (hhalted : p.lifecycle ≠ .accepting → p.queue = []) :
    ∃ t, dispatchWaiting p = some t ∧ Core none t ∧ Frame p t ∧ t.maintenance = p.maintenance ∧
      t.maintenanceBusy = p.maintenanceBusy ∧ t.queue.length ≤ p.queue.length ∧
        (∀ j, t.slots j = p.slots j ∨ (p.slots j).state = .idle ∧ (t.slots j).state = .leased) ∧
          (p.queue = [] → t.queue = []) ∧
            (t.queue ≠ [] → ∀ j < p.connections, (t.slots j).state ≠ .idle) ∧ Changes p t := by
  have hstopped : p.lifecycle ≠ .accepting → dispatchWaiting p = some p := fun hn => by
    rw [dispatchWaiting]
    cases hp : p.lifecycle with
    | stopping | stopped => rfl
    | accepting => exact absurd hp hn
  by_cases hlife : p.lifecycle = .accepting
  · obtain ⟨t, ht, hc, hf, hm, hb, hq, hslots, -, hempty, hfed, hchanges⟩ :=
      eachSlot_range (n := p.connections) (p := p) (f := dispatchSlot)
      -- the slots from `i` on are as they were, and those before are in use if any request is left
      (I := fun i t => Core none t ∧ Frame p t ∧ t.maintenance = p.maintenance ∧
        t.maintenanceBusy = p.maintenanceBusy ∧ t.queue.length ≤ p.queue.length ∧
          (∀ j, t.slots j = p.slots j ∨ (p.slots j).state = .idle ∧ (t.slots j).state = .leased) ∧
            (∀ j, i ≤ j → t.slots j = p.slots j) ∧ (p.queue = [] → t.queue = []) ∧
              (t.queue ≠ [] → ∀ j < i, (t.slots j).state ≠ .idle) ∧ Changes p t)
      (by
        rintro i hi u ⟨hc, hf, hm, hb, hq, hslots, hrest, hempty, hfed, hchanges⟩
        have hui := hrest i le_rfl
        obtain ⟨t, ht, hct, hft, hqt, hmt, hbt, hother, hself, hidle, hnil, hserve⟩ :=
          dispatchSlot_spec hc (hf.connections ▸ hi) fun hs => by
            rw [hui] at hs ⊢
            exact hl i hi hs
        refine ⟨t, ht, hct, hf.trans hft, hmt.trans hm, hbt.trans hb, hqt.trans hq,
          fun j => ?_, fun j hj => ?_, fun he => hnil (hempty he), fun hne j hj => ?_,
          hchanges.trans hserve⟩
        · by_cases hj : j = i
          · subst hj
            rw [hui] at hself
            exact hself
          · rw [hother j hj]
            exact hslots j
        · rw [hother j (by omega)]
          exact hrest j (by omega)
        · by_cases hji : j = i
          · subst hji
            exact fun he => hne (hidle he)
          · rw [hother j hji]
            exact hfed (fun he => hne (hnil he)) j (by omega))
      ⟨h, .refl p, rfl, rfl, le_rfl, fun _ => .inl rfl, fun _ _ => rfl, id, fun _ => nofun, .refl⟩
    refine ⟨t, ?_, hc, hf, hm, hb, hq, hslots, hempty, hfed, hchanges⟩
    rw [dispatchWaiting, hlife]
    exact ht
  · exact ⟨p, hstopped hlife, h, .refl p, rfl, rfl, le_rfl, fun _ => .inl rfl, id,
      fun hne => absurd (hhalted hlife) hne, .refl⟩

end DuckdbMl.AsyncPool
