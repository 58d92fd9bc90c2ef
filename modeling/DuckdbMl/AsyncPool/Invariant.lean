import DuckdbMl.AsyncPool.Safety

/-!
# Every handler keeps the pool steady

## Main results

* `steady_created`: a pool is steady when it is created
* `handle_spec`: no handler reaches a partial operation outside its domain, and each keeps `Steady`
-/

namespace DuckdbMl.AsyncPool

open Pool.Async (Answer combine)

variable {X V : Type} {p t : Pool X V} {i r : ℕ} {d : Option ℕ}

/-! ### Admission -/

/-- A new request is nowhere. -/
theorem Core.addRequest (h : Core none p) (operation : Operation) :
    Core (some p.admitted) (p.addRequest operation) ∧
      Waiting ((p.addRequest operation).requests p.admitted) := by
  have hself : (p.addRequest operation).requests p.admitted = newRequest operation :=
    Function.update_self ..
  have hother : ∀ x < p.admitted, (p.addRequest operation).requests x = p.requests x :=
    fun x hx => Function.update_of_ne hx.ne ..
  refine ⟨⟨fun j hj => ?_, h.lease, fun j hj x hx => Nat.lt_succ_of_lt (h.leased j hj x hx),
    h.nodup, fun x hx => ?_, fun x hx hd => ?_, fun x hd => ?_, h.busy, h.maintenance⟩, ?_⟩
  · exact (h.slot j hj).of_requests fun x hx => hother x (h.leased j hj x hx)
  · obtain ⟨hlt, hq⟩ := h.queue x hx
    rw [hother x hlt]
    exact ⟨Nat.lt_succ_of_lt hlt, hq⟩
  · have hlt : x < p.admitted :=
      lt_of_le_of_ne (Nat.le_of_lt_succ hx) fun he => hd (he ▸ rfl)
    have hp := h.placed x hlt nofun
    have he := hother x hlt
    exact ⟨fun hs => hp.queued (he ▸ hs), fun hs => hp.leased (he ▸ hs), he.symm ▸ hp.finished⟩
  · cases hd
    exact ⟨Nat.lt_succ_self _, fun hq => lt_irrefl _ (h.queue _ hq).1,
      fun j hj hx => lt_irrefl _ (h.leased j hj _ hx), by rw [hself]; rfl⟩
  · rw [hself]
    exact ⟨rfl, rfl, rfl, rfl⟩

/-- A request that is nowhere joins the queue. -/
theorem Core.insertLast (h : Core (some r) p) (hr : Waiting (p.requests r)) :
    Core none (p.insertLast r) := by
  -- until now the request is neither in the queue nor in a lease
  obtain ⟨hadmitted, hqueue, hlease, -⟩ := h.dangling r rfl
  have hself : (p.insertLast r).requests r = (p.requests r).joinQueue :=
    Pool.requests_modifyRequest_self ..
  have hother : ∀ x, x ≠ r → (p.insertLast r).requests x = p.requests x := fun x hx =>
    Pool.requests_modifyRequest_of_ne hx ..
  have hmem : ∀ x, x ∈ (p.insertLast r).queue ↔ x ∈ p.queue ∨ x = r := fun x =>
    List.mem_append.trans (or_congr_right List.mem_singleton)
  refine ⟨fun j hj => ?_, h.lease, h.leased, ?_, fun x hx => ?_, fun x hx _ => ?_, nofun, h.busy,
    h.maintenance⟩
  · refine (h.slot j hj).of_requests fun x hx => hother x ?_
    rintro rfl
    exact hlease j hj hx
  · exact List.nodup_append.mpr ⟨h.nodup, List.nodup_singleton r, fun x hx y hy he =>
      hqueue (List.mem_singleton.mp hy ▸ he ▸ hx)⟩
  -- the new last request waits, and the others are as before
  · by_cases hxr : x = r
    · subst hxr
      rw [hself]
      exact ⟨hadmitted, rfl, hr.state, hr.result, hr.operation, hr.execution⟩
    · rw [hother x hxr]
      exact h.queue x (((hmem x).mp hx).resolve_right hxr)
  -- it is in the queue, as its state says
  · by_cases hxr : x = r
    · subst hxr
      refine ⟨fun _ => (hmem x).mpr (.inr rfl), fun hs => ?_, ?_⟩
      · have hs : (p.requests x).state = .dispatched ∨ (p.requests x).state = .settling := by
          rw [hself] at hs
          exact hs
        rcases hs with hs | hs <;> cases hr.state.symm.trans hs
      · rw [hself]
        refine iff_of_false (fun hs => ?_) ?_
        · cases hr.state.symm.trans hs
        · change ¬ (p.requests x).result.isSome = true
          simp [hr.result]
    · have hp := h.placed x hx fun he => hxr (Option.some.inj he).symm
      exact ⟨fun hs => (hmem x).mpr (.inl (hp.queued (hother x hxr ▸ hs))),
        fun hs => hp.leased (hother x hxr ▸ hs), (hother x hxr).symm ▸ hp.finished⟩

theorem Pumped.of_accepting (h : Pumped p) (hl : t.lifecycle = .accepting)
    (hb : t.maintenanceBusy = p.maintenanceBusy) (hn : t.connections = p.connections)
    (hs : ∀ i < p.connections, (p.slots i).state.needsMaintenance = false →
      (t.slots i).state.needsMaintenance = false) : Pumped t where
  slots he i hi := hs i (hn ▸ hi) (h.slots (hb ▸ he) i (hn ▸ hi))
  database _ he := by
    rw [hl] at he
    cases he

/-- **Admission does not fail.** -/
theorem admit_spec (h : Steady p) (inCallback : Bool) (operation : Operation) :
    ∃ a t, admitRequest inCallback operation p = some (a, t) ∧ Steady t ∧ Changes p t := by
  cases inCallback with
  | true => exact ⟨_, p, rfl, h, .refl⟩
  | false =>
    cases hlife : p.lifecycle with
    | stopping | stopped => exact ⟨_, p, by simp only [admitRequest, hlife]; rfl, h, .refl⟩
    | accepting =>
      by_cases hfull : (p.idleSlot.isNone && decide (p.queueCapacity ≤ p.queue.length)) = true
      · exact ⟨_, p, by simp only [admitRequest, hlife, hfull]; rfl, h, .refl⟩
      · obtain ⟨hcore, hwaiting⟩ := h.mid.core.addRequest operation
        have hidle : p.idleSlot = if p.queue.isEmpty then
            (List.range p.connections).find? fun i => (p.slots i).state = .idle else none := rfl
        cases hslot : p.idleSlot with
        -- an idle slot: nobody waits, and the request is dispatched to it at once
        | some i =>
          rw [hslot] at hidle
          have hempty : p.queue = [] := by
            by_contra hne
            rw [if_neg (by simpa using hne)] at hidle
            cases hidle
          rw [hempty, List.isEmpty_nil, if_pos rfl] at hidle
          have hs : (p.slots i).state = .idle := by simpa using List.find?_some hidle.symm
          have hi := List.mem_range.mp (List.mem_of_find?_eq_some hidle.symm)
          have hl := h.released i hi (by rw [hs]; rfl)
          obtain ⟨c, _, hown, ho, ht, hc, hother, hself⟩ :=
            dispatch_spec hcore hi hs hl hwaiting
          have hnew : (p.addRequest operation).requests p.admitted = newRequest operation :=
            Function.update_self ..
          rw [hnew] at ho
          cases ho
          have hstate : ∀ j, (((p.addRequest operation).given i p.admitted c operation).slots
              j).state = (p.slots j).state ∨ (((p.addRequest operation).given i p.admitted c
                operation).slots j).state = .leased := fun j => by
            by_cases hj : j = i
            · exact .inr (hj ▸ hself)
            · exact .inl (congrArg Slot.state (hother j hj))
          refine ⟨.ok p.admitted, _, ?_, ⟨⟨hc, (absurd hlife ·), fun he => ?_, fun he => ?_,
            h.mid.result, h.mid.capacity⟩, fun j hj hd => ?_, fun hne => absurd hempty hne,
            fun _ j hj => ?_, ?_⟩,
            h.mid.core.changes (.serveNew operation hi hs hl hown hempty)⟩
          · simp only [admitRequest, hlife, hslot, ht]
            rfl
          · have hd := h.mid.database he
            rw [hlife] at hd
            cases hd.1
          · cases hlife.symm.trans he
          · by_cases hji : j = i
            · rw [hji, hself] at hd
              cases hd
            · rw [hother j hji] at hd ⊢
              exact h.released j hj hd
          · rcases hstate j with he | he <;> rw [he]
            · exact h.alive hlife j hj
            · rfl
          · refine h.pumped.of_accepting hlife rfl rfl fun j _ hj => ?_
            rcases hstate j with he | he <;> rw [he]
            · exact hj
            · rfl
        -- no idle slot: the request waits, and there is room for it
        | none =>
          have hroom : p.queue.length < p.queueCapacity := by
            rw [hslot, Option.isNone_none, Bool.true_and, decide_eq_true_eq] at hfull
            exact Nat.lt_of_not_le hfull
          have hfed : ∀ j < p.connections, (p.slots j).state ≠ .idle := fun j hj hs => by
            by_cases hempty : p.queue = []
            · rw [hslot, hempty, List.isEmpty_nil, if_pos rfl] at hidle
              have := List.find?_eq_none.mp hidle.symm j (List.mem_range.mpr hj)
              simp [hs] at this
            · exact h.fed hempty j hj hs
          have hc := hcore.insertLast hwaiting
          refine ⟨.ok p.admitted, _, ?_, ⟨⟨hc, (absurd hlife ·), h.mid.database, h.mid.ended,
            h.mid.result, ?_⟩, h.released, fun _ => hfed, h.alive,
            h.pumped.of_accepting hlife rfl rfl fun _ _ => id⟩,
            h.mid.core.changes (.join operation hlife hroom)⟩
          · rw [hslot] at hfull
            simp only [admitRequest, hlife, hslot, if_neg hfull]
            rfl
          · change (p.queue ++ [p.admitted]).length ≤ p.queueCapacity
            rw [List.length_append]
            exact hroom

/-! ### Cancellation and shutdown -/

theorem Core.latchDangling (h : Core (some r) p) : Core (some r) (AsyncPool.latch r p) := by
  obtain ⟨hadmitted, hqueue, hlease, hresult⟩ := h.dangling r rfl
  have hother : ∀ x, x ≠ r → (AsyncPool.latch r p).requests x = p.requests x := fun x hx =>
    Pool.requests_modifyRequest_of_ne hx ..
  refine ⟨fun j hj => ?_, h.lease, h.leased, h.nodup, fun x hx => ?_, fun x hx hd => ?_,
    fun x hd => ?_, h.busy, h.maintenance⟩
  · refine (h.slot j hj).of_requests fun x hx => hother x ?_
    rintro rfl
    exact hlease j hj hx
  · rw [hother x fun he => hqueue (he ▸ hx)]
    exact h.queue x hx
  · have hp := h.placed x hx hd
    have he := hother x fun he => hd (he ▸ rfl)
    exact ⟨fun hs => hp.queued (he ▸ hs), fun hs => hp.leased (he ▸ hs), he.symm ▸ hp.finished⟩
  · cases hd
    refine ⟨hadmitted, hqueue, hlease, ?_⟩
    have he : (AsyncPool.latch r p).requests r = (p.requests r).latch :=
      Pool.requests_modifyRequest_self ..
    rw [he]
    exact hresult

/-- A change to the requests and to a part of the queue. -/
theorem Steady.of_queue (h : Steady p) (hcore : Core none t) (hframe : Frame p t)
    (hslots : t.slots = p.slots) (hm : t.maintenance = p.maintenance)
    (hb : t.maintenanceBusy = p.maintenanceBusy) (hqueue : t.queue.Sublist p.queue) :
    Steady t := by
  -- no slot has changed, so that only what the queue says has to be seen to
  have hnil : p.queue = [] → t.queue = [] := fun he => List.sublist_nil.mp (he ▸ hqueue)
  refine ⟨⟨hcore, fun hl => ?_, fun he => ?_, fun hl => ?_, ?_, ?_⟩, fun j hj => ?_,
    fun hne j hj => ?_, fun hl => ?_, ⟨fun he j hj => ?_, fun he hl => ?_⟩⟩
  · rw [hframe.lifecycle] at hl
    rw [hslots, hframe.connections]
    exact ⟨hnil (h.mid.halted hl).1, (h.mid.halted hl).2⟩
  · rw [hframe.lifecycle, hslots, hframe.connections]
    exact h.mid.database (hm ▸ he)
  · rw [hframe.lifecycle] at hl
    rw [hm, hslots, hframe.connections]
    exact h.mid.ended hl
  · rw [hframe.shutdownResult, hframe.lifecycle]
    exact h.mid.result
  · rw [hframe.queueCapacity]
    exact hqueue.length_le.trans h.mid.capacity
  · rw [hslots]
    exact h.released j (hframe.connections ▸ hj)
  · rw [hslots]
    exact h.fed (fun he => hne (hnil he)) j (hframe.connections ▸ hj)
  · rw [hslots, hframe.connections]
    exact h.alive (hframe.lifecycle ▸ hl)
  · rw [hslots]
    exact h.pumped.slots (hb ▸ he) j (hframe.connections ▸ hj)
  · rw [hslots, hframe.connections]
    exact h.pumped.database (hb ▸ he) (hframe.lifecycle ▸ hl)

/-- An idle slot has no lease. -/
theorem Steady.idle (h : Steady p) (j : ℕ) (hj : j < p.connections)
    (hs : (p.slots j).state = .idle) : (p.slots j).lease = none :=
  h.released j hj (by rw [hs]; rfl)

/-- **Cancellation does not fail.** -/
theorem cancel_spec (h : Steady p) (inCallback : Bool) (hr : r < p.admitted) :
    ∃ a t, cancel inCallback r p = some (a, t) ∧ Steady t ∧ Changes p t := by
  cases inCallback with
  | true => exact ⟨_, p, rfl, h, .refl⟩
  | false =>
    have hp := h.mid.core.placed r hr nofun
    -- while the request is leased, a cancellation only sets its latch
    have hlatch : (p.requests r).state = .dispatched ∨ (p.requests r).state = .settling →
        Steady (latch r p) ∧ Changes p (latch r p) := fun hs => by
      obtain ⟨i, hi, hl⟩ := hp.leased hs
      have hidle : (p.slots i).state ≠ .idle := fun he =>
        Option.some_ne_none r (hl.symm.trans (h.released i hi (by rw [he]; rfl)))
      exact ⟨h.of_queue (h.mid.core.latch hi hl) ⟨rfl, rfl, rfl, rfl⟩ rfl rfl rfl (.refl _),
        h.mid.core.changes (.latch hi hl hidle)⟩
    cases hs : (p.requests r).state with
    -- too late: nothing is done
    | finished => exact ⟨_, p, by simp only [cancel, hs]; rfl, h, .refl⟩
    -- the request leaves the queue and is finished as cancelled
    | queued =>
      have hq := hp.queued hs
      have hnode := (h.mid.core.queue r hq).2.1
      obtain ⟨hf, hc⟩ := (h.mid.core.removeFirst hq).latchDangling.finish
        (.error (.expected .cancelled))
      refine ⟨.ok .requested, _, ?_, h.of_queue hc ⟨rfl, rfl, rfl, rfl⟩ rfl rfl rfl
        List.erase_sublist, h.mid.core.changes (.withdraw hq)⟩
      · simp only [cancel, hs, leaveQueue, hnode, hq, decide_true, Bool.and_self, if_true,
          Option.bind_some, hf]
        rfl
    | dispatched => exact ⟨_, _, by simp only [cancel, hs]; rfl, hlatch (.inl hs)⟩
    | settling => exact ⟨_, _, by simp only [cancel, hs]; rfl, hlatch (.inr hs)⟩

/-- Slots that have moved, in a pool that does not accept any more. -/
theorem Mid.steady (h : Mid t) (hl : t.lifecycle ≠ .accepting) (hp : Pumped t)
    (hreleased : ∀ j < t.connections, (t.slots j).state.done = true → (t.slots j).lease = none) :
    Steady t :=
  ⟨h, hreleased, fun hne => absurd (h.halted hl).1 hne, (absurd · hl), hp⟩

/-- **A shutdown does not fail.** -/
theorem shutdown_spec (h : Steady p) (inCallback : Bool) :
    ∃ a t, shutdown inCallback p = some (a, t) ∧ Steady t ∧ Changes p t := by
  cases inCallback with
  | true => exact ⟨_, p, rfl, h, .refl⟩
  | false =>
    obtain ⟨t, ht, hm, hn, hl, hmoved, hp, hsame, hchanges⟩ := stop_spec h.mid h.idle
    refine ⟨.ok (), t, ?_, ?_, hchanges⟩
    · simp only [shutdown, ht]
      rfl
    · by_cases hlife : p.lifecycle = .accepting
      · refine hm.steady hl (hp hlife) fun j hj hd => ?_
        rcases (hmoved j (hn ▸ hj)).done hd with he | he
        · rw [he] at hd ⊢
          exact h.released j (hn ▸ hj) hd
        · exact he
      · rw [hsame hlife]
        exact h

/-! ### The work of a request -/

/-- A helper that has work is that of a leased slot. -/
theorem Core.of_work {w : Work X V} (h : Core none p) (hi : i < p.connections)
    (hw : (p.slots i).work = some w) : (p.slots i).state = .leased ∧
      (p.slots i).lease = some w.request ∧ Given (p.requests w.request) w := by
  by_cases hs : (p.slots i).state = .leased
  · obtain ⟨w', hw', hl, hg⟩ := (h.slot i hi).leased hs
    cases hw.symm.trans hw'
    exact ⟨hs, hl, hg⟩
  · cases hw.symm.trans ((h.slot i hi).free hs).1

/-- The work goes on. -/
theorem Core.reach {w : Work X V} {a : Stage X V} {e : Execution} (h : Core none p)
    (hi : i < p.connections) (hw : (p.slots i).work = some w) (ha : a ≠ .waiting) :
    Core none (p.modifySlot i (Slot.reach a)) ∧
      Core none ((p.modifySlot i (Slot.reach a)).modifyRequest w.request
        (Request.execution e)) := by
  have hok := h.slot i hi
  obtain ⟨hs, hl, hg⟩ := h.of_work hi hw
  have hwork : ((p.slots i).reach a).work = some (w.reach a) := by rw [Slot.reach, hw]; rfl
  have hslot : Core none (p.modifySlot i (Slot.reach a)) :=
    h.modifySlot ⟨hok.owner, fun _ => ⟨_, hwork, hl, hg.state, hg.result, fun he => absurd he ha⟩,
      fun hn => absurd hs hn, hok.closing, hok.connecting, hok.unmaintained⟩ rfl
  refine ⟨hslot, hslot.modifyLeased hi (r := w.request) ?_ rfl rfl ?_⟩
  · rw [Pool.slots_modifySlot_self]
    exact hl
  · rw [Pool.slots_modifySlot_self]
    refine ⟨hok.owner, fun _ => ⟨_, hwork, hl, ?_⟩, fun hn => absurd hs hn, hok.closing,
      hok.connecting, hok.unmaintained⟩
    have he : ((p.modifySlot i (Slot.reach a)).modifyRequest w.request
        (Request.execution e)).requests w.request = (p.requests w.request).execution e :=
      Pool.requests_modifyRequest_self ..
    change Given (((p.modifySlot i (Slot.reach a)).modifyRequest w.request
      (Request.execution e)).requests w.request) (w.reach a)
    rw [he]
    exact ⟨hg.state, hg.result, fun he => absurd he ha⟩

/-- Neither the states of the slots nor their leases change. -/
theorem Steady.of_same (h : Steady p) (hcore : Core none t) (hframe : Frame p t)
    (hqueue : t.queue = p.queue) (hstates : ∀ j, (t.slots j).state = (p.slots j).state)
    (hleases : ∀ j, (t.slots j).lease = (p.slots j).lease) (hm : t.maintenance = p.maintenance)
    (hb : t.maintenanceBusy = p.maintenanceBusy) : Steady t := by
  refine ⟨h.mid.of_same hcore hframe hqueue hstates hm, fun j hj => ?_, fun hne j hj => ?_,
    fun hl j hj => ?_, ⟨fun he j hj => ?_, fun he hl => ?_⟩⟩
  · rw [hstates, hleases]
    exact h.released j (hframe.connections ▸ hj)
  · rw [hstates]
    exact h.fed (hqueue ▸ hne) j (hframe.connections ▸ hj)
  · rw [hstates]
    exact h.alive (hframe.lifecycle ▸ hl) j (hframe.connections ▸ hj)
  · rw [hstates]
    exact h.pumped.slots (hb ▸ he) j (hframe.connections ▸ hj)
  · obtain ⟨j, hj, ho⟩ := h.pumped.database (hb ▸ he) (hframe.lifecycle ▸ hl)
    exact ⟨j, hframe.connections.symm ▸ hj, (hstates j).symm ▸ ho⟩

theorem state_lease_reach (i j : ℕ) (a : Stage X V) (p : Pool X V) :
    ((p.modifySlot i (Slot.reach a)).slots j).state = (p.slots j).state ∧
      ((p.modifySlot i (Slot.reach a)).slots j).lease = (p.slots j).lease := by
  by_cases hj : j = i
  · rw [hj, Pool.slots_modifySlot_self]
    exact ⟨rfl, rfl⟩
  · rw [Pool.slots_modifySlot_of_ne hj]
    exact ⟨rfl, rfl⟩

/-- **The gate of a request is entered once.** -/
theorem enter_spec {w : Work X V} (h : Steady p) (hi : i < p.connections)
    (hw : (p.slots i).work = some w) (ha : w.stage = .waiting) :
    ∃ t, enter i w p = some t ∧ Steady t ∧ Completes p t := by
  have hexecution := (h.mid.core.of_work hi hw).2.2.entry ha
  have hsame : ∀ (a : Stage X V) (e : Execution) (l : List Event), a ≠ .waiting →
      Steady { ((p.modifySlot i (Slot.reach a)).modifyRequest w.request
        (Request.execution e)) with log := l } := fun a e l ha => by
    have hc := (h.mid.core.reach (e := e) hi hw ha).2
    refine h.of_same ⟨hc.slot, hc.lease, hc.leased, hc.nodup, hc.queue, fun x hx hd => ?_, nofun,
      hc.busy, hc.maintenance⟩ ⟨rfl, rfl, rfl, rfl⟩ rfl (fun j => (state_lease_reach i j a p).1)
      (fun j => (state_lease_reach i j a p).2) rfl rfl
    have hp := hc.placed x hx hd
    exact ⟨hp.queued, hp.leased, hp.finished⟩
  rw [enter, hexecution]
  dsimp only
  split
  · next hg =>
    exact ⟨_, rfl, hsame _ .returned _ nofun, h.mid.core.completes (.bypass hi hw ha hg) .refl⟩
  · next hg =>
    exact ⟨_, rfl, hsame _ .executing (_ :: p.log) nofun,
      h.mid.core.completes (.enter hi hw ha (eq_false_of_ne_true hg)) .refl⟩

theorem leave_spec {w : Work X V} (h : Steady p) (hi : i < p.connections)
    (hw : (p.slots i).work = some w) (ha : w.stage = .running) (e : Ending X V) :
    Steady (leave i w e p) ∧ Completes p (leave i w e p) :=
  ⟨h.of_same (h.mid.core.reach (a := .ended e.result) hi hw nofun).2 ⟨rfl, rfl, rfl, rfl⟩ rfl
    (fun j => (state_lease_reach i j _ p).1) (fun j => (state_lease_reach i j _ p).2) rfl rfl,
    h.mid.core.completes (.leave e.result hi hw ha) .refl⟩

theorem offloadFailed_spec {w : Work X V} (h : Steady p) (hi : i < p.connections)
    (hw : (p.slots i).work = some w) (ha : w.stage = .waiting) (x : X) :
    Steady (p.modifySlot i (Slot.reach (.ended (.error (.raised x))))) ∧
      Completes p (p.modifySlot i (Slot.reach (.ended (.error (.raised x))))) :=
  ⟨h.of_same (h.mid.core.reach (a := .ended (.error (.raised x))) (e := .returned) hi hw
    nofun).1 ⟨rfl, rfl, rfl, rfl⟩ rfl
    (fun j => (state_lease_reach i j _ p).1) (fun j => (state_lease_reach i j _ p).2) rfl rfl,
    h.mid.core.completes (.abandon x hi hw ha) .refl⟩

theorem Pool.slots_settling (i : ℕ) (w : Work X V) (result : Result X V) (a : SlotState)
    (p : Pool X V) : (p.settling i w result a).slots =
      Function.update p.slots i ((p.slots i).finishWork.become a) := by
  change Function.update (Function.update p.slots i (p.slots i).finishWork) i
    (Slot.become a (Function.update p.slots i (p.slots i).finishWork i)) = _
  rw [Function.update_self, Function.update_idem]

/-- A request whose work has ended is settling, and its slot idle or to be closed. -/
theorem Core.settle {w : Work X V} {a : SlotState} (h : Core none p) (hi : i < p.connections)
    (hw : (p.slots i).work = some w) (result : Result X V) (ha : a = .idle ∨ a = .needsClose) :
    Core none (p.settling i w result a) := by
  have hok := h.slot i hi
  obtain ⟨hs, hl, hg⟩ := h.of_work hi hw
  have hslots := Pool.slots_settling i w result a p
  have hother : ∀ x, x ≠ w.request → (p.settling i w result a).requests x = p.requests x :=
    fun x hx => Function.update_of_ne hx ..
  have hself : (p.settling i w result a).requests w.request =
      (p.requests w.request).settle result := Function.update_self ..
  -- no lease changes: the slot keeps its request until it is finished
  have hlease : ∀ j, (Function.update p.slots i ((p.slots i).finishWork.become a) j).lease =
      (p.slots j).lease := by
    intro j
    by_cases hj : j = i
    · rw [hj, Function.update_self]
      rfl
    · rw [Function.update_of_ne hj]
  have hleased : a ≠ .leased := by rcases ha with rfl | rfl <;> decide
  refine ⟨fun j hj => ?_, fun j hj k hk x hjx hkx => ?_, fun j hj x hjx => ?_, h.nodup,
    fun x hx => ?_, fun x hx _ => ?_, nofun, h.busy, h.maintenance⟩
  -- the slot has no work any more, and its request has a result to give
  · rw [hslots]
    by_cases hji : j = i
    · subst hji
      rw [Function.update_self]
      refine ⟨hok.owner.trans ?_, fun he => absurd he hleased, fun _ => ⟨rfl, fun x hx => ?_⟩,
        fun he => ?_, fun he => ?_,
        fun _ _ => hok.unmaintained (hs ▸ by decide) (hs ▸ by decide)⟩
      · rw [hs]
        rcases ha with rfl | rfl <;> rfl
      · cases hl.symm.trans hx
        rw [hself]
        exact ⟨rfl, hg.result, rfl⟩
      · have he : a = .closing := he
        rcases ha with rfl | rfl <;> cases he
      · have he : a = .connecting := he
        rcases ha with rfl | rfl <;> cases he
    · rw [Function.update_of_ne hji]
      refine (h.slot j hj).of_requests fun x hx => hother x ?_
      rintro rfl
      exact hji (h.lease j hj i hi _ hx hl)
  · rw [hslots] at hjx hkx
    exact h.lease j hj k hk x ((hlease j).symm.trans hjx) ((hlease k).symm.trans hkx)
  · rw [hslots] at hjx
    exact h.leased j hj x ((hlease j).symm.trans hjx)
  -- the request is leased, and so not in the queue
  · have hne : x ≠ w.request := fun he => h.not_mem_queue_of_lease hi hl (he ▸ hx)
    rw [hother x hne]
    exact h.queue x hx
  -- its place stays the lease
  · have hp := h.placed x hx nofun
    by_cases hxr : x = w.request
    · subst hxr
      refine ⟨fun he => ?_, fun _ => ⟨i, hi, ?_⟩, ?_⟩
      · rw [hself] at he
        cases he
      · rw [hslots, hlease]
        exact hl
      · rw [hself]
        refine iff_of_false nofun ?_
        change ¬ (p.requests w.request).result.isSome = true
        simp [hg.result]
    · refine ⟨fun he => hp.queued (hother x hxr ▸ he), fun he => ?_, (hother x hxr).symm ▸
        hp.finished⟩
      obtain ⟨j, hj, hjx⟩ := hp.leased (hother x hxr ▸ he)
      refine ⟨j, hj, ?_⟩
      rw [hslots, hlease]
      exact hjx

/-- After the lease of an idle slot has been finished, the queue is served. -/
theorem Core.serve (h : Core none p) (hi : i < p.connections) (hs : (p.slots i).state = .idle)
    (hlife : p.lifecycle = .accepting) (hm : p.maintenance ≠ some .closeDatabase)
    (hresult : p.shutdownResult.isSome = true ↔ p.lifecycle = .stopped)
    (hcapacity : p.queue.length ≤ p.queueCapacity)
    (hreleased : ∀ j < p.connections, j ≠ i → (p.slots j).state.done = true →
      (p.slots j).lease = none) :
    ∃ t, (finishLease i p).bind dispatchWaiting = some t ∧ Mid t ∧ t.lifecycle = .accepting ∧
      t.connections = p.connections ∧ t.maintenanceBusy = p.maintenanceBusy ∧
        (∀ j < t.connections, (t.slots j).state.done = true → (t.slots j).lease = none) ∧
          (t.queue ≠ [] → ∀ j < t.connections, (t.slots j).state ≠ .idle) ∧
            (∀ j, (t.slots j).state = (p.slots j).state ∨ (t.slots j).state = .leased) ∧
              Changes p t := by
  -- the lease ends, after which only slots in use have one
  obtain ⟨u, hu, hcu, hfu, hsu, hqu, hmu, hfinish⟩ := finishLease_spec h hi (hs ▸ rfl)
  have hstates : ∀ j, (u.slots j).state = (p.slots j).state := fun j => by
    rw [hsu]
    by_cases hj : j = i
    · rw [hj, Function.update_self]
      rfl
    · rw [Function.update_of_ne hj]
  have hleases : ∀ j < u.connections, (u.slots j).state.done = true →
      (u.slots j).lease = none := fun j hj hd => by
    rw [hstates] at hd
    rw [hsu]
    by_cases hji : j = i
    · rw [hji, Function.update_self]
      rfl
    · rw [Function.update_of_ne hji]
      exact hreleased j (hfu.connections ▸ hj) hji hd
  -- then the idle slots are fed from the queue
  obtain ⟨t, ht, hct, hft, hmt, hbt, hqt, hst, -, hfed, hserve⟩ := dispatchWaiting_spec hcu
    (fun j hj he => hleases j hj (by rw [he]; rfl))
    (fun hl => absurd (hfu.lifecycle.trans hlife) hl)
  have hlifet : t.lifecycle = .accepting := (hft.lifecycle.trans hfu.lifecycle).trans hlife
  refine ⟨t, by rw [hu]; exact ht, ⟨hct, (absurd hlifet ·), fun he => ?_, fun he => ?_, ?_, ?_⟩,
    hlifet, hft.connections.trans hfu.connections, ?_, fun j hj hd => ?_,
    fun hne j hj => hfed hne j (hft.connections ▸ hj), fun j => ?_, hfinish.trans hserve⟩
  · exact absurd (hmu.symm.trans (hmt.symm.trans he)) hm
  · cases hlifet.symm.trans he
  · rw [hft.shutdownResult, hfu.shutdownResult, hlifet, ← hlife]
    exact hresult
  · rw [hft.queueCapacity, hfu.queueCapacity]
    exact hqt.trans (hqu ▸ hcapacity)
  · rw [hbt, hcu.busy, hmu, ← h.busy]
  · rcases hst j with he | ⟨-, he⟩
    · rw [he] at hd ⊢
      exact hleases j (hft.connections ▸ hj) hd
    · rw [he] at hd
      cases hd
  · rcases hst j with he | ⟨-, he⟩
    · exact .inl (he ▸ hstates j)
    · exact .inr he

/-- What is used again is an execution that has succeeded, of a request that is not cancelled. -/
theorem reusable_iff {w : Work X V} {result : Result X V} : reusable w result p = true ↔
    w.operation = .execute ∧ (∃ v, result = .ok v) ∧ p.lifecycle = .accepting ∧
      (p.requests w.request).gate.cancelled = false := by
  rcases w with ⟨r, operation, c, stage⟩
  cases hl : p.lifecycle <;> cases operation <;> cases result <;> simp [reusable, hl]

/-- **The end of the work of a request does not fail.** -/
theorem settle_spec {w : Work X V} (h : Steady p) (hi : i < p.connections)
    (hw : (p.slots i).work = some w) {result : Result X V} (hstage : w.stage = .ended result) :
    ∃ t, settle i w result p = some t ∧ Steady t ∧ Completes p t := by
  obtain ⟨hs, hl, hg⟩ := h.mid.core.of_work hi hw
  have hstate : ∀ a j, (((p.settling i w result a).slots j).state = if j = i then a
      else (p.slots j).state) ∧ ((p.settling i w result a).slots j).lease = (p.slots j).lease := by
    intro a j
    rw [Pool.slots_settling]
    by_cases hj : j = i
    · rw [hj, Function.update_self, if_pos rfl]
      exact ⟨rfl, rfl⟩
    · rw [Function.update_of_ne hj, if_neg hj]
      exact ⟨rfl, rfl⟩
  -- the database is not being closed while a slot is leased
  have hopen : p.maintenance ≠ some .closeDatabase := fun he => by
    have ho := (h.mid.database he).2 i hi
    rw [hs] at ho
    cases ho
  rw [settle]
  by_cases hreusable : reusable w result ((p.modifySlot i Slot.finishWork).modifyRequest w.request
      (Request.settle result)) = true
  -- the connection is used again: the slot is idle, and serves the first that waits
  · rw [if_pos hreusable]
    obtain ⟨-, hok, hlife, hlatched⟩ := reusable_iff.mp hreusable
    have hlife : p.lifecycle = .accepting := hlife
    rw [Pool.requests_modifyRequest_self] at hlatched
    have hcore := h.mid.core.settle hi hw result (a := .idle) (.inl rfl)
    obtain ⟨t, ht, hmid, hlifet, hn, hb, hreleased, hfed, hstates, hserve⟩ := hcore.serve hi
      (by rw [(hstate _ _).1, if_pos rfl]) hlife hopen h.mid.result h.mid.capacity
      (fun j hj hji hd => by
        rw [(hstate _ _).1, if_neg hji] at hd
        rw [(hstate _ _).2]
        exact h.released j hj hd)
    refine ⟨t, ht, ⟨hmid, hreleased, hfed, fun _ j hj => ?_,
      h.pumped.of_accepting hlifet hb hn fun j _ hj => ?_⟩,
      h.mid.core.completes (.settle hi hw hstage (.inr ⟨rfl, hok, hlatched, hlife⟩)) hserve⟩
    · rcases hstates j with he | he
      · rw [he, (hstate _ _).1]
        split
        · rfl
        · exact h.alive hlife j (hn ▸ hj)
      · rw [he]
        rfl
    · rcases hstates j with he | he
      · rw [he, (hstate _ _).1]
        split
        · rfl
        · exact hj
      · rw [he]
        rfl
  -- else it has to be closed, which the maintenance starts with when it is free
  · rw [if_neg hreusable]
    have hcore := h.mid.core.settle hi hw result (a := .needsClose) (.inr rfl)
    have hmid : Mid (p.settling i w result .needsClose) := by
      refine ⟨hcore, fun hlife => ⟨(h.mid.halted hlife).1, fun j hj => ?_⟩,
        fun he => absurd he hopen, fun he => ?_, h.mid.result, h.mid.capacity⟩
      · rw [(hstate _ _).1]
        split
        · exact ⟨nofun, nofun⟩
        · exact (h.mid.halted hlife).2 j hj
      · have ho := (h.mid.ended he).2 i hi
        rw [hs] at ho
        cases ho
    obtain ⟨t, ht, hmt, hft, hqt, hmoved, hover, hp, hpump⟩ := hmid.pump
    have hbefore : ∀ j, ((p.settling i w result .needsClose).slots j).state.done = true → j ≠ i ∧
        (p.slots j).state = ((p.settling i w result .needsClose).slots j).state := fun j hd => by
      rw [(hstate _ _).1] at hd ⊢
      split at hd
      · cases hd
      · exact ⟨by assumption, (if_neg (by assumption)).symm⟩
    refine ⟨t, ht, ⟨hmt, fun j hj hd => ?_, fun hne j hj he => ?_, fun hl j hj => hover j ?_, hp⟩,
      h.mid.core.completes (.settle hi hw hstage (.inl rfl)) hpump⟩
    · rcases (hmoved j).done hd with he | he
      · rw [he] at hd ⊢
        obtain ⟨-, hsame⟩ := hbefore j hd
        rw [(hstate _ _).2]
        exact h.released j (hft.connections ▸ hj) (hsame ▸ hd)
      · exact he
    · have hsame := (hmoved j).free (.inl he)
      rw [hsame] at he
      obtain ⟨-, hstay⟩ := hbefore j (by rw [he]; rfl)
      exact h.fed (hqt ▸ hne) j (hft.connections ▸ hj) (hstay.trans he)
    · rw [(hstate _ _).1]
      split
      · rfl
      · exact h.alive (hft.lifecycle ▸ hl) j (hft.connections ▸ hj)

/-! ### The maintenance of slots -/

/-- The slot that the maintenance helper works on. -/
theorem Core.of_maintenance (h : Core none p)
    (hm : p.maintenance.bind Maintenance.slot = some i) :
    i < p.connections ∧ (p.slots i).state ≠ .leased ∧ (p.slots i).state.over = false := by
  have hi := h.maintenance i hm
  have hstate : (p.slots i).state = .closing ∨ (p.slots i).state = .connecting := by
    by_contra hn
    rw [not_or] at hn
    exact (h.slot i hi).unmaintained hn.1 hn.2 hm
  refine ⟨hi, ?_, ?_⟩ <;> rcases hstate with he | he <;> rw [he] <;> decide

/-- The slot whose connection is being closed. -/
theorem Core.of_closeSlot {c : ℕ} (h : Core none p) (hm : p.maintenance = some (.closeSlot i c)) :
    i < p.connections ∧ (p.slots i).state = .closing ∧ (p.slots i).owner = some c := by
  have hslot : p.maintenance.bind Maintenance.slot = some i := by rw [hm]; rfl
  have hi := h.maintenance i hslot
  have hs : (p.slots i).state = .closing := by
    by_contra hn
    by_cases hc : (p.slots i).state = .connecting
    · cases hm.symm.trans ((h.slot i hi).connecting hc)
    · exact (h.slot i hi).unmaintained hn hc hslot
  obtain ⟨k, hk, he⟩ := (h.slot i hi).closing hs
  cases hm.symm.trans he
  exact ⟨hi, hs, hk⟩

/-- The slot that a connection is being opened for. -/
theorem Core.of_connect (h : Core none p) (hm : p.maintenance = some (.connect i)) :
    i < p.connections ∧ (p.slots i).state = .connecting ∧ (p.slots i).owner = none := by
  have hslot : p.maintenance.bind Maintenance.slot = some i := by rw [hm]; rfl
  have hi := h.maintenance i hslot
  have hs : (p.slots i).state = .connecting := by
    by_contra hn
    by_cases hc : (p.slots i).state = .closing
    · obtain ⟨c, -, he⟩ := (h.slot i hi).closing hc
      cases hm.symm.trans he
    · exact (h.slot i hi).unmaintained hc hn hslot
  refine ⟨hi, hs, Option.not_isSome_iff_eq_none.mp fun he => ?_⟩
  rw [(h.slot i hi).owner, hs] at he
  cases he

theorem SlotState.done_of_over {a : SlotState} (h : a.over = true) : a.done = true := by
  cases a <;> first | rfl | cases h

/-- The job of the maintenance helper ends, and its slot becomes `s`. -/
theorem Core.retire {s : Slot X V} (h : Core none p)
    (hm : p.maintenance.bind Maintenance.slot = some i)
    (hs : s.owner.isSome = s.state.owns ∧ s.lease = (p.slots i).lease ∧
      s.work = (p.slots i).work)
    (hstate : s.state ≠ .leased ∧ s.state ≠ .closing ∧ s.state ≠ .connecting)
    (hslots : t.slots = Function.update p.slots i s) (hrequests : t.requests = p.requests)
    (hqueue : t.queue = p.queue) (hadmitted : t.admitted = p.admitted)
    (hconnections : t.connections = p.connections) (hmt : t.maintenance = none)
    (hbt : t.maintenanceBusy = false) : Core none t := by
  obtain ⟨hi, hleased, -⟩ := h.of_maintenance hm
  have hok := h.slot i hi
  have hlease : ∀ j, (t.slots j).lease = (p.slots j).lease := by
    intro j
    rw [hslots]
    by_cases hj : j = i
    · rw [hj, Function.update_self, hs.2.1]
    · rw [Function.update_of_ne hj]
  -- the job was that of slot `i`: the other slots are neither closing nor connecting
  refine ⟨fun j hj => ?_, fun j hj k hk x hjx hkx => ?_, fun j hj x hjx => ?_, hqueue ▸ h.nodup,
    fun x hx => ?_, fun x hx hd => ?_, nofun, ?_, fun j hj => ?_⟩
  · rw [hslots, hrequests, hmt]
    rw [hconnections] at hj
    by_cases hji : j = i
    · subst hji
      rw [Function.update_self]
      refine ⟨hs.1, fun he => absurd he hstate.1, fun _ => ⟨hs.2.2 ▸ (hok.free hleased).1, ?_⟩,
        fun he => absurd he hstate.2.1, fun he => absurd he hstate.2.2, fun _ _ => nofun⟩
      rw [hs.2.1]
      exact (hok.free hleased).2
    · have hokj := h.slot j hj
      rw [Function.update_of_ne hji]
      refine ⟨hokj.owner, hokj.leased, hokj.free, fun he => ?_, fun he => ?_, fun _ _ => nofun⟩
      · obtain ⟨c, -, hc⟩ := hokj.closing he
        rw [hc] at hm
        exact absurd (Option.some.inj hm) hji
      · rw [hokj.connecting he] at hm
        exact absurd (Option.some.inj hm) hji
  · rw [hlease] at hjx hkx
    exact h.lease j (hconnections ▸ hj) k (hconnections ▸ hk) x hjx hkx
  · rw [hlease] at hjx
    exact hadmitted ▸ h.leased j (hconnections ▸ hj) x hjx
  · rw [hrequests, hadmitted]
    exact h.queue x (hqueue ▸ hx)
  · have hp := h.placed x (hadmitted ▸ hx) hd
    refine ⟨fun he => ?_, fun he => ?_, ?_⟩
    · rw [hqueue]
      exact hp.queued (hrequests ▸ he)
    · rw [hrequests] at he
      obtain ⟨j, hj, hjx⟩ := hp.leased he
      exact ⟨j, hconnections.symm ▸ hj, (hlease j).trans hjx⟩
    · rw [hrequests]
      exact hp.finished
  · rw [hmt, hbt]
    rfl
  · rw [hmt] at hj
    cases hj

/-- The same for what holds in the middle of a handler. -/
theorem Mid.retire {s : Slot X V} (h : Mid p)
    (hm : p.maintenance.bind Maintenance.slot = some i)
    (hs : s.owner.isSome = s.state.owns ∧ s.lease = (p.slots i).lease ∧
      s.work = (p.slots i).work)
    (hstate : s.state ≠ .leased ∧ s.state ≠ .closing ∧ s.state ≠ .connecting)
    (hhalted : p.lifecycle ≠ .accepting → s.state ≠ .idle ∧ s.state ≠ .needsConnect)
    (hslots : t.slots = Function.update p.slots i s) (hrequests : t.requests = p.requests)
    (hqueue : t.queue = p.queue) (hadmitted : t.admitted = p.admitted) (hframe : Frame p t)
    (hmt : t.maintenance = none) (hbt : t.maintenanceBusy = false) : Mid t := by
  refine ⟨h.core.retire hm hs hstate hslots hrequests hqueue hadmitted hframe.connections hmt hbt,
    fun hl => ?_, fun he => ?_, fun he => ?_, ?_, ?_⟩
  · rw [hframe.lifecycle] at hl
    refine ⟨hqueue.trans (h.halted hl).1, fun j hj => ?_⟩
    rw [hslots]
    by_cases hji : j = i
    · rw [hji, Function.update_self]
      exact hhalted hl
    · rw [Function.update_of_ne hji]
      exact (h.halted hl).2 j (hframe.connections ▸ hj)
  · cases hmt.symm.trans he
  · rw [hframe.lifecycle] at he
    rw [(h.ended he).1] at hm
    cases hm
  · rw [hframe.shutdownResult, hframe.lifecycle]
    exact h.result
  · rw [hqueue, hframe.queueCapacity]
    exact h.capacity

/-- A handler ends with the maintenance helper. -/
theorem Mid.pump_steady (h : Mid p)
    (hreleased : ∀ j < p.connections, (p.slots j).state.done = true → (p.slots j).lease = none)
    (hfed : p.queue ≠ [] → ∀ j < p.connections, (p.slots j).state ≠ .idle)
    (halive : p.lifecycle = .accepting → ∀ j < p.connections, (p.slots j).state.over = false) :
    ∃ t, AsyncPool.pump p = some t ∧ Steady t ∧ Changes p t := by
  obtain ⟨t, ht, hmt, hft, hqt, hmoved, hover, hp, hpump⟩ := h.pump
  refine ⟨t, ht, ⟨hmt, fun j hj hd => ?_, fun hne j hj he => ?_, fun hl j hj =>
    hover j (halive (hft.lifecycle ▸ hl) j (hft.connections ▸ hj)), hp⟩, hpump⟩
  · rcases (hmoved j).done hd with he | he
    · rw [he] at hd ⊢
      exact hreleased j (hft.connections ▸ hj) hd
    · exact he
  · have hsame := (hmoved j).free (.inl he)
    exact hfed (hqt ▸ hne) j (hft.connections ▸ hj) (hsame ▸ he)

/-- The lease of a slot is finished before the handler ends. -/
theorem Mid.finishLease (h : Mid p) (hi : i < p.connections)
    (hs : (p.slots i).state.done = true) : ∃ t, AsyncPool.finishLease i p = some t ∧ Mid t ∧
      Frame p t ∧ t.slots = Function.update p.slots i (p.slots i).release ∧ t.queue = p.queue ∧
        Changes p t := by
  obtain ⟨t, ht, hct, hft, hst, hqt, hmt, hfinish⟩ := finishLease_spec h.core hi hs
  refine ⟨t, ht, h.of_same hct hft hqt (fun j => ?_) hmt, hft, hst, hqt, hfinish⟩
  rw [hst]
  by_cases hj : j = i
  · rw [hj, Function.update_self]
    rfl
  · rw [Function.update_of_ne hj]

/-- **The failure of a slot ends the pool**, and its request. -/
theorem slotFailure_spec (h : Mid p) (hi : i < p.connections)
    (hs : (p.slots i).state.over = true) (f : Failure X)
    (hreleased : ∀ j < p.connections, j ≠ i → (p.slots j).state.done = true →
      (p.slots j).lease = none) :
    ∃ t, ((slotFailure i f p).bind (finishLease i)).bind pump = some t ∧ Steady t ∧
      Changes p t := by
  have hok := h.core.slot i hi
  -- the failure is recorded in the slot
  have hcore : Core none (p.modifySlot i (Slot.addFailure f)) :=
    h.core.modifySlot ⟨hok.owner, hok.leased, hok.free, hok.closing, hok.connecting,
      hok.unmaintained⟩ rfl
  have hstates : ∀ j, ((p.modifySlot i (Slot.addFailure f)).slots j).state =
      (p.slots j).state := fun j => by
    by_cases hj : j = i
    · rw [hj, Pool.slots_modifySlot_self]
      rfl
    · rw [Pool.slots_modifySlot_of_ne hj]
  have hmid : Mid (p.modifySlot i (Slot.addFailure f)) :=
    h.of_same hcore ⟨rfl, rfl, rfl, rfl⟩ rfl hstates rfl
  -- the pool begins to stop, if it has not yet
  obtain ⟨u, hu, hmu, hnu, hlu, hmoved, -, -, hstop⟩ := stop_spec hmid fun j hj he => by
    rw [hstates] at he
    have hji : j ≠ i := by
      rintro rfl
      rw [he] at hs
      cases hs
    rw [Pool.slots_modifySlot_of_ne hji]
    exact hreleased j hj hji (by rw [he]; rfl)
  obtain ⟨v, hv, hmv, hfv, -, hmoved', -, -, hpump⟩ := hmu.pump
  have hn : v.connections = p.connections := hfv.connections.trans hnu
  have hboth : ∀ j < p.connections, Moved ((p.modifySlot i (Slot.addFailure f)).slots j)
      (v.slots j) := fun j hj => (hmoved j hj).trans (hmoved' j)
  -- the slot is over, so that it stays as it is and its request can be finished
  have hdone : (v.slots i).state.done = true := by
    rw [(hboth i hi).settled (by rw [hstates]; exact SlotState.settled_of_over hs), hstates]
    exact SlotState.done_of_over hs
  obtain ⟨x, hx, hmx, hfx, hsx, hqx, hfinish⟩ := hmv.finishLease (hn ▸ hi) hdone
  have hlx : x.lifecycle ≠ .accepting := by
    rw [hfx.lifecycle, hfv.lifecycle]
    exact hlu
  -- a slot that is done has given its request back
  have hdone : ∀ j < x.connections, (x.slots j).state.done = true →
      (x.slots j).lease = none := fun j hj hd => by
    rw [hsx] at hd ⊢
    by_cases hji : j = i
    · rw [hji, Function.update_self]
      rfl
    · rw [Function.update_of_ne hji] at hd ⊢
      have hjn : j < p.connections := hn ▸ hfx.connections ▸ hj
      have hsame : (p.modifySlot i (Slot.addFailure f)).slots j = p.slots j :=
        Pool.slots_modifySlot_of_ne hji ..
      rcases (hboth j hjn).done hd with he | he
      · rw [he, hsame] at hd ⊢
        exact hreleased j hjn hji hd
      · exact he
  -- the maintenance goes on, and the pool is steady again
  obtain ⟨y, hy, hsteady, hlast⟩ :=
    hmx.pump_steady hdone (fun hne => absurd (hmx.halted hlx).1 hne) (absurd · hlx)
  refine ⟨y, ?_, hsteady, .head ⟨h.core, _, .slotFailure i f⟩
    (hstop.trans (hpump.trans (hfinish.trans hlast)))⟩
  rw [slotFailure, hu, Option.bind_some, hv, Option.bind_some, hx, Option.bind_some, hy]

/-- The outcome of a request does not depend on the maintenance helper. -/
theorem addLeaseCleanup_finishMaintenance (i : ℕ) (result : Answer Error X) (p : Pool X V)
    (f : Pool X V → Pool X V)
    (hf : ∀ q : Pool X V, (f q).requests = q.requests ∧ ((f q).slots i).lease = (q.slots i).lease ∧
      ∀ r g, (f q).modifyRequest r g = f (q.modifyRequest r g)) :
    addLeaseCleanup i result (f p) = (addLeaseCleanup i result p).map f := by
  rw [addLeaseCleanup, addLeaseCleanup, (hf p).2.1]
  cases (p.slots i).lease with
  | none => rfl
  | some r =>
    simp only [(hf p).1]
    cases (p.requests r).outcome with
    | none => rfl
    | some outcome => exact congrArg some ((hf p).2.2 r _)

theorem slots_closed (i c : ℕ) (a : SlotState) (p : Pool X V) :
    (((p.finishMaintenance.record (.closed c)).modifySlot i Slot.disown).modifySlot i
      (Slot.become a)).slots = Function.update p.slots i ((p.slots i).disown.become a) := by
  simp [Pool.modifySlot, Pool.record, Pool.finishMaintenance]

theorem slots_connected (i : ℕ) (a : SlotState) (p : Pool X V) :
    ((p.finishMaintenance.connect i).modifySlot i (Slot.become a)).slots =
      Function.update p.slots i (((p.slots i).own p.opened).become a) := by
  simp [Pool.connect, Pool.modifySlot, Pool.record, Pool.finishMaintenance]

/-- **The close of a connection does not fail.** -/
theorem slotClosed_spec {c : ℕ} (h : Steady p) (hm : p.maintenance = some (.closeSlot i c))
    (result : Answer Error X) :
    ∃ t, slotClosed i c result p = some t ∧ Steady t ∧ Completes p t := by
  have hslot : p.maintenance.bind Maintenance.slot = some i := by rw [hm]; rfl
  obtain ⟨hi, hstate, howner⟩ := h.mid.core.of_closeSlot hm
  obtain ⟨q, hq, hcq, hfq, hsq, hqq, hmq, hcleanup⟩ :=
    addLeaseCleanup_spec h.mid.core hi (.inl hstate) result
  have hmid : Mid q := h.mid.of_same hcq hfq hqq (fun j => by rw [hsq]) hmq
  have hslotq : q.maintenance.bind Maintenance.slot = some i := hmq ▸ hslot
  have hrun : addLeaseCleanup i result (p.finishMaintenance.record (.closed c)) =
      some (q.finishMaintenance.record (.closed c)) := by
    rw [addLeaseCleanup_finishMaintenance i result p
      (fun q => q.finishMaintenance.record (.closed c)) fun q => ⟨rfl, rfl, fun _ _ => rfl⟩, hq]
    rfl
  -- the other slots are as they were
  have hreleased : ∀ (s : Slot X V), ∀ j < q.connections, j ≠ i →
      (Function.update q.slots i s j).state.done = true →
        (Function.update q.slots i s j).lease = none := fun s j hj hji hd => by
    rw [Function.update_of_ne hji, hsq] at hd ⊢
    exact h.released j (hfq.connections ▸ hj) hd
  have hfed : ∀ (s : Slot X V), s.state ≠ .idle → q.queue ≠ [] → ∀ j < q.connections,
      (Function.update q.slots i s j).state ≠ .idle := fun s hs hne j hj => by
    by_cases hji : j = i
    · rw [hji, Function.update_self]
      exact hs
    · rw [Function.update_of_ne hji, hsq]
      exact h.fed (hqq ▸ hne) j (hfq.connections ▸ hj)
  rw [slotClosed, hrun, Option.bind_some]
  cases result with
  -- the slot keeps a connection that could not be closed, and the pool stops
  | error failure =>
    have howns : (q.slots i).owner.isSome = true := by
      rw [hsq, howner]
      rfl
    have hfailed : Mid ((q.finishMaintenance.record (.closed c)).modifySlot i
        (Slot.become .closeFailed)) :=
      hmid.retire (s := (q.slots i).become .closeFailed) hslotq ⟨howns, rfl, rfl⟩
        ⟨nofun, nofun, nofun⟩ (fun _ => ⟨nofun, nofun⟩) rfl rfl rfl rfl
        ⟨rfl, rfl, rfl, rfl⟩ rfl rfl
    obtain ⟨t, ht, hsteady, hchanges⟩ := slotFailure_spec (i := i) hfailed
      (hfq.connections ▸ hi) (by rw [Pool.slots_modifySlot_self]; rfl) failure (hreleased _)
    exact ⟨t, ht, hsteady,
      .head hcleanup (hcq.completes (.closeFailed (hmq.trans hm)) hchanges)⟩
  | ok u =>
    dsimp only
    cases hlife : q.lifecycle with
    -- the pool goes on: the slot gets a new connection
    | accepting =>
      have hlife' : ((q.finishMaintenance.record (.closed c)).modifySlot i
        Slot.disown).lifecycle = .accepting := hlife
      rw [hlife']
      dsimp only
      have hslots := slots_closed i c .needsConnect q
      have hm' := hmid.retire (s := (q.slots i).disown.become .needsConnect) hslotq
        ⟨rfl, rfl, rfl⟩ ⟨nofun, nofun, nofun⟩ (absurd hlife ·) hslots rfl rfl rfl
        ⟨rfl, rfl, rfl, rfl⟩ rfl rfl
      suffices hend : ∃ t, pump (((q.finishMaintenance.record (.closed c)).modifySlot i
          Slot.disown).modifySlot i (Slot.become .needsConnect)) = some t ∧ Steady t ∧
            Changes _ t by
        obtain ⟨t, ht, hsteady, hpump⟩ := hend
        exact ⟨t, ht, hsteady, .head hcleanup
          (hcq.completes (.closed (hmq.trans hm) (.inl ⟨rfl, hlife⟩)) hpump)⟩
      refine hm'.pump_steady (fun j hj hd => ?_) (fun hne j hj => ?_) fun _ j hj => ?_
      · rw [hslots] at hd ⊢
        by_cases hji : j = i
        · rw [hji, Function.update_self] at hd
          cases hd
        · exact hreleased _ j hj hji hd
      · rw [hslots]
        exact hfed ((q.slots i).disown.become .needsConnect) (by intro he; cases he) hne j hj
      · rw [hslots]
        by_cases hji : j = i
        · rw [hji, Function.update_self]
          rfl
        · rw [Function.update_of_ne hji, hsq]
          exact h.alive (hfq.lifecycle ▸ hlife) j (hfq.connections ▸ hj)
    -- the pool stops: the slot is over, and its lease ends
    | stopping | stopped =>
      have hlife' : ((q.finishMaintenance.record (.closed c)).modifySlot i
        Slot.disown).lifecycle = _ := hlife
      rw [hlife']
      dsimp only
      have hslots := slots_closed i c .closed q
      have hm' := hmid.retire (s := (q.slots i).disown.become .closed) hslotq
        ⟨rfl, rfl, rfl⟩ ⟨nofun, nofun, nofun⟩ (fun _ => ⟨nofun, nofun⟩) hslots rfl rfl rfl
        ⟨rfl, rfl, rfl, rfl⟩ rfl rfl
      obtain ⟨v, hv, hmv, hfv, hsv, hqv, hfinish⟩ := hm'.finishLease (i := i)
        (hfq.connections ▸ hi) (by rw [hslots, Function.update_self]; rfl)
      rw [hslots, Function.update_self, Function.update_idem] at hsv
      rw [hv, Option.bind_some]
      suffices hend : ∃ t, pump v = some t ∧ Steady t ∧ Changes v t by
        obtain ⟨t, ht, hsteady, hpump⟩ := hend
        exact ⟨t, ht, hsteady, .head hcleanup (hcq.completes (.closed (hmq.trans hm)
          (.inr ⟨rfl, by rw [hlife]; exact nofun⟩)) (hfinish.trans hpump))⟩
      have hlv : v.lifecycle ≠ .accepting := by
        rw [hfv.lifecycle.trans hlife]
        exact nofun
      refine hmv.pump_steady (fun j hj hd => ?_) (fun hne j hj => ?_) (absurd · hlv)
      · rw [hsv] at hd ⊢
        by_cases hji : j = i
        · rw [hji, Function.update_self]
          rfl
        · exact hreleased _ j (hfv.connections ▸ hj) hji hd
      · rw [hsv]
        exact hfed ((q.slots i).disown.become .closed).release (by intro he; cases he)
          (hqv ▸ hne) j (hfv.connections ▸ hj)

/-- **A new connection does not fail** to find its slot. -/
theorem slotConnected_spec (h : Steady p) (hm : p.maintenance = some (.connect i))
    (result : Answer Error X) :
    ∃ t, slotConnected i result p = some t ∧ Steady t ∧ Completes p t := by
  have hslot : p.maintenance.bind Maintenance.slot = some i := by rw [hm]; rfl
  obtain ⟨hi, hstate, howner⟩ := h.mid.core.of_connect hm
  unfold slotConnected
  cases result with
  -- the slot stays without a connection, and the pool stops
  | error failure =>
    obtain ⟨q, hq, hcq, hfq, hsq, hqq, hmq, hcleanup⟩ :=
      addLeaseCleanup_spec h.mid.core hi (.inr hstate) (.error failure)
    have hmid : Mid q := h.mid.of_same hcq hfq hqq (fun j => by rw [hsq]) hmq
    have hslotq : q.maintenance.bind Maintenance.slot = some i := hmq ▸ hslot
    have hrun : addLeaseCleanup i (.error failure)
        (p.finishMaintenance.modifySlot i (Slot.become .closed)) =
          some (q.finishMaintenance.modifySlot i (Slot.become .closed)) := by
      rw [addLeaseCleanup_finishMaintenance i (.error failure) p
        (fun q => q.finishMaintenance.modifySlot i (Slot.become .closed))
        fun q => ⟨rfl, by rw [Pool.slots_modifySlot_self]; rfl, fun _ _ => rfl⟩, hq]
      rfl
    have howns : (q.slots i).owner.isSome = false := by
      rw [hsq, howner]
      rfl
    have hfailed : Mid (q.finishMaintenance.modifySlot i (Slot.become .closed)) :=
      hmid.retire (s := (q.slots i).become .closed) hslotq ⟨howns, rfl, rfl⟩
        ⟨nofun, nofun, nofun⟩ (fun _ => ⟨nofun, nofun⟩) rfl rfl rfl rfl ⟨rfl, rfl, rfl, rfl⟩ rfl rfl
    dsimp only
    rw [hrun, Option.bind_some]
    obtain ⟨t, ht, hsteady, hchanges⟩ := slotFailure_spec (i := i) hfailed
      (hfq.connections ▸ hi) (by rw [Pool.slots_modifySlot_self]; rfl) failure
      fun j hj hji hd => by
        rw [Pool.slots_modifySlot_of_ne hji] at hd ⊢
        change (q.slots j).state.done = true at hd
        change (q.slots j).lease = none
        rw [hsq] at hd ⊢
        exact h.released j (hfq.connections ▸ hj) hd
    exact ⟨t, ht, hsteady,
      .head hcleanup (hcq.completes (.connectFailed (hmq.trans hm)) hchanges)⟩
  | ok u =>
    have hslots := fun a => slots_connected i a p
    dsimp only
    cases hlife : p.lifecycle with
    -- the slot is idle, and serves the first that waits
    | accepting =>
      have hlife' : (p.finishMaintenance.connect i).lifecycle = .accepting := hlife
      rw [hlife']
      dsimp only
      have hcore : Core none ((p.finishMaintenance.connect i).modifySlot i (Slot.become .idle)) :=
        h.mid.core.retire (s := ((p.slots i).own p.opened).become .idle) hslot ⟨rfl, rfl, rfl⟩
          ⟨nofun, nofun, nofun⟩ (hslots _) rfl rfl rfl rfl rfl rfl
      obtain ⟨t, ht, hmid, hlifet, hn, hb, hreleased, hfed, hstates, hserve⟩ :=
        hcore.serve (i := i) hi
        (by rw [hslots, Function.update_self]; rfl) hlife nofun h.mid.result h.mid.capacity
        fun j hj hji hd => by
          rw [hslots, Function.update_of_ne hji] at hd ⊢
          exact h.released j hj hd
      obtain ⟨v, hv, hsteady, hpump⟩ := hmid.pump_steady hreleased hfed fun _ j hj => by
        rcases hstates j with he | he <;> rw [he]
        · rw [hslots]
          by_cases hji : j = i
          · rw [hji, Function.update_self]
            rfl
          · rw [Function.update_of_ne hji]
            exact h.alive hlife j (hn ▸ hj)
        · rfl
      exact ⟨v, by rw [ht, Option.bind_some, hv], hsteady, h.mid.core.completes (.connected hm
        (.inl ⟨rfl, hlife⟩)) (hserve.trans hpump)⟩
    -- the pool stops: the new connection is closed again
    | stopping | stopped =>
      have hlife' : (p.finishMaintenance.connect i).lifecycle = _ := hlife
      rw [hlife']
      dsimp only
      have hmid : Mid ((p.finishMaintenance.connect i).modifySlot i (Slot.become .needsClose)) :=
        h.mid.retire (s := ((p.slots i).own p.opened).become .needsClose) hslot ⟨rfl, rfl, rfl⟩
          ⟨nofun, nofun, nofun⟩ (fun _ => ⟨nofun, nofun⟩) (hslots _) rfl rfl rfl
          ⟨rfl, rfl, rfl, rfl⟩ rfl rfl
      rw [Option.bind_some]
      suffices hend : ∃ t, pump ((p.finishMaintenance.connect i).modifySlot i
          (Slot.become .needsClose)) = some t ∧ Steady t ∧ Changes _ t by
        obtain ⟨t, ht, hsteady, hpump⟩ := hend
        exact ⟨t, ht, hsteady, h.mid.core.completes (.connected hm
          (.inr ⟨rfl, by rw [hlife]; exact nofun⟩)) hpump⟩
      refine hmid.pump_steady (fun j hj hd => ?_) (fun hne => ?_) fun hl => ?_
      · rw [hslots] at hd ⊢
        by_cases hji : j = i
        · rw [hji, Function.update_self] at hd
          cases hd
        · rw [Function.update_of_ne hji] at hd ⊢
          exact h.released j hj hd
      · exact absurd (h.mid.halted (by rw [hlife]; exact nofun)).1 hne
      · cases hlife.symm.trans hl

/-! ### The end of the database, and failures of the pool -/

/-- **The result of the pool is filled once.** -/
theorem databaseClosed_spec (h : Steady p) (hm : p.maintenance = some .closeDatabase)
    (result released : Answer Error X) :
    ∃ t, databaseClosed result released p = some t ∧ Steady t ∧ Completes p t := by
  -- the database is closed while the pool stops and when all slots are over
  obtain ⟨hlife, hover⟩ := h.mid.database hm
  -- the result is filled only in a pool that has stopped
  have hresult : p.shutdownResult = none := by
    cases he : p.shutdownResult with
    | none => rfl
    | some a =>
      have hs := h.mid.result.mp (by rw [he]; rfl)
      cases hs.symm.trans hlife
  have hcore := h.mid.core
  refine ⟨{ p.finishMaintenance.collect result released with
    shutdownResult := some (p.finishMaintenance.collect result released).lifecycleResult },
    by simp only [databaseClosed, Pool.collect, Pool.finishMaintenance, hresult], ?_,
    hcore.completes (.databaseClosed result released hm hlife) .refl⟩
  refine ⟨⟨⟨fun j hj => ?_, hcore.lease, hcore.leased, hcore.nodup, hcore.queue, fun x hx hd => ?_,
    nofun, rfl, nofun⟩, fun _ => ?_, nofun, fun _ => ⟨rfl, hover⟩, iff_of_true rfl rfl,
    h.mid.capacity⟩, h.released, h.fed, nofun, ⟨fun _ j hj => ?_, nofun⟩⟩
  · have hok := hcore.slot j hj
    have ho := hover j hj
    have hover : ∀ a, SlotState.over a = false → (p.slots j).state ≠ a := fun a ha he =>
      Bool.false_ne_true (ha.symm.trans (he ▸ ho))
    exact ⟨hok.owner, hok.leased, hok.free, fun he => absurd he (hover _ rfl),
      fun he => absurd he (hover _ rfl), fun _ _ => nofun⟩
  · have hp := hcore.placed x hx hd
    exact ⟨hp.queued, hp.leased, hp.finished⟩
  · exact h.mid.halted (by rw [hlife]; exact nofun)
  · exact SlotState.needsMaintenance_of_over (hover j hj)

/-- **A failure of the scheduler ends the pool.** -/
theorem lifecycleFailure_spec (h : Steady p) (f : Failure X) :
    ∃ t, lifecycleFailure f p = some t ∧ Steady t ∧ Changes p t := by
  have hcore := h.mid.core
  have hadd : Steady (p.addFailure f) :=
    h.of_same ⟨hcore.slot, hcore.lease, hcore.leased, hcore.nodup, hcore.queue, fun x hx hd =>
      ⟨(hcore.placed x hx hd).queued, (hcore.placed x hx hd).leased,
        (hcore.placed x hx hd).finished⟩, nofun, hcore.busy, hcore.maintenance⟩
      ⟨rfl, rfl, rfl, rfl⟩ rfl (fun _ => rfl) (fun _ => rfl) rfl rfl
  obtain ⟨t, ht, hm, hn, hl, hmoved, -, -, hstop⟩ := stop_spec hadd.mid hadd.idle
  obtain ⟨u, hu, hsteady, hpump⟩ := hm.pump_steady (fun j hj hd => by
    rcases (hmoved j (hn ▸ hj)).done hd with he | he
    · rw [he] at hd ⊢
      exact h.released j (hn ▸ hj) hd
    · exact he) (fun hne => absurd (hm.halted hl).1 hne) (absurd · hl)
  refine ⟨u, ?_, hsteady, .head ⟨hcore, _, .poolFailure f⟩ (hstop.trans hpump)⟩
  rw [lifecycleFailure, ht, Option.bind_some, hu]

/-! ### Handlers and runs -/

/-- A pool is steady when it is created. -/
theorem steady_created (n capacity : ℕ) : Steady (created n capacity : Pool X V) where
  mid := by
    refine ⟨⟨fun i _ => ⟨rfl, nofun, fun _ => ⟨rfl, nofun⟩, nofun, nofun, fun _ _ => nofun⟩, nofun,
      nofun, .nil, nofun, nofun, nofun, rfl, nofun⟩, fun h => absurd rfl h, nofun, nofun,
      iff_of_false nofun nofun, Nat.zero_le _⟩
  released _ _ _ := rfl
  fed h := absurd rfl h
  alive _ _ _ := rfl
  pumped := ⟨fun _ _ _ => rfl, nofun⟩

theorem Pool.workAt_eq {w : Work X V} (h : p.workAt i = some w) :
    i < p.connections ∧ (p.slots i).work = some w := by
  rw [Pool.workAt] at h
  split at h
  · exact ⟨by assumption, h⟩
  · cases h

/-- What a helper has done; the other labels are calls of the users, and failures. -/
def Label.completes : Label X V → Bool
  | .enter _ | .leave _ _ | .offloadFailed _ _ | .settle _ => true
  | .slotClosed _ | .slotConnected _ | .databaseClosed _ _ => true
  | .admitRequest _ _ | .cancel _ _ | .shutdown _ | .lifecycleFailure _ => false

theorem Completes.both {l : Label X V} (h : Completes p t) :
    Changes p t ∧ (l.completes = true → Completes p t) := ⟨h.changes, fun _ => h⟩

theorem Changes.other {l : Label X V} (h : Changes p t) (hl : l.completes = false) :
    Changes p t ∧ (l.completes = true → Completes p t) :=
  ⟨h, fun he => absurd (hl.symm.trans he) Bool.false_ne_true⟩

/-- **No handler fails**, each leaves the pool steady, and is made of changes. -/
theorem handle_spec (h : Steady p) {l : Label X V} {o : Option (Pool X V)}
    (ho : handle p l = some o) : ∃ t, o = some t ∧ Steady t ∧ Changes p t ∧
      (l.completes = true → Completes p t) := by
  cases l with
  -- what the pool is asked for
  | admitRequest inCallback operation =>
    obtain ⟨a, t, ht, hs, hchanges⟩ := admit_spec h inCallback operation
    rw [handle, ht] at ho
    exact ⟨t, (Option.some.inj ho).symm, hs, hchanges.other rfl⟩
  | cancel inCallback r =>
    rw [handle] at ho
    split at ho
    · next hr =>
      obtain ⟨a, t, ht, hs, hchanges⟩ := cancel_spec h inCallback hr
      rw [ht] at ho
      exact ⟨t, (Option.some.inj ho).symm, hs, hchanges.other rfl⟩
    · cases ho
  | shutdown inCallback =>
    obtain ⟨a, t, ht, hs, hchanges⟩ := shutdown_spec h inCallback
    rw [handle, ht] at ho
    exact ⟨t, (Option.some.inj ho).symm, hs, hchanges.other rfl⟩
  -- what the helper of a slot completes: the handler finds the work it is about
  | enter i =>
    rw [handle] at ho
    split at ho
    · next r operation c hw =>
      obtain ⟨hi, hw⟩ := Pool.workAt_eq hw
      obtain ⟨t, ht, hs, hcompletes⟩ := enter_spec h hi hw rfl
      exact ⟨t, (Option.some.inj ho).symm.trans ht, hs, hcompletes.both⟩
    · cases ho
  | leave i e =>
    rw [handle] at ho
    split at ho
    · next r operation c hw =>
      obtain ⟨hi, hw⟩ := Pool.workAt_eq hw
      obtain ⟨hs, hcompletes⟩ := leave_spec h hi hw rfl e
      exact ⟨_, (Option.some.inj ho).symm, hs, hcompletes.both⟩
    · cases ho
  | offloadFailed i x =>
    rw [handle] at ho
    split at ho
    · next r operation c hw =>
      obtain ⟨hi, hw⟩ := Pool.workAt_eq hw
      obtain ⟨hs, hcompletes⟩ := offloadFailed_spec h hi hw rfl x
      exact ⟨_, (Option.some.inj ho).symm, hs, hcompletes.both⟩
    · cases ho
  | settle i =>
    rw [handle] at ho
    split at ho
    · next r operation c result hw =>
      obtain ⟨hi, hw⟩ := Pool.workAt_eq hw
      obtain ⟨t, ht, hs, hcompletes⟩ := settle_spec h hi hw rfl
      exact ⟨t, (Option.some.inj ho).symm.trans ht, hs, hcompletes.both⟩
    · cases ho
  -- what the maintenance helper completes
  | slotClosed result =>
    rw [handle] at ho
    split at ho
    · next i c hm =>
      obtain ⟨t, ht, hs, hcompletes⟩ := slotClosed_spec h hm result
      exact ⟨t, (Option.some.inj ho).symm.trans ht, hs, hcompletes.both⟩
    · cases ho
  | slotConnected result =>
    rw [handle] at ho
    split at ho
    · next i hm =>
      obtain ⟨t, ht, hs, hcompletes⟩ := slotConnected_spec h hm result
      exact ⟨t, (Option.some.inj ho).symm.trans ht, hs, hcompletes.both⟩
    · cases ho
  | databaseClosed result released =>
    rw [handle] at ho
    split at ho
    · next hm =>
      obtain ⟨t, ht, hs, hcompletes⟩ := databaseClosed_spec h hm result released
      exact ⟨t, (Option.some.inj ho).symm.trans ht, hs, hcompletes.both⟩
    · cases ho
  | lifecycleFailure failure =>
    obtain ⟨t, ht, hs, hchanges⟩ := lifecycleFailure_spec h failure
    exact ⟨t, (Option.some.inj ho).symm.trans ht, hs, hchanges.other rfl⟩

end DuckdbMl.AsyncPool
