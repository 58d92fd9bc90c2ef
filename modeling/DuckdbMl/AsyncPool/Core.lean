import DuckdbMl.AsyncPool.Change

/-!
# What the functions of the pool keep

## Main definitions

* `Core d p`: slots, requests, queue and maintenance fit together; the request `d` is nowhere
* `Frame p t`: what a function leaves alone
* `Changes p t`, `Completes p t`: changes from `p` to `t`, each of them made to a pool with `Core`

## Main results

* `finishLease_spec`, `clear_spec`, `stopSlot_spec`, `pump_spec`: no partial operation of these
  functions is outside its domain, they keep `Core`, and are made of changes
-/

namespace DuckdbMl.AsyncPool

open Pool.Async (Answer combine)

variable {X V : Type} {p t : Pool X V} {i r : ℕ} {d : Option ℕ}

/-- The slot has a connection. -/
def SlotState.owns : SlotState → Bool
  | .idle | .leased | .needsClose | .closing | .closeFailed => true
  | .needsConnect | .connecting | .closed => false

/-- A request whose work is on a helper. -/
structure Given (q : Request X V) (w : Work X V) : Prop where
  state : q.state = .dispatched
  result : q.result = none
  entry : w.stage = .waiting → q.gate.execution = .awaitingEntry

/-- A request whose work has ended, and whose slot is not done. -/
structure Settling (q : Request X V) : Prop where
  state : q.state = .settling
  result : q.result = none
  outcome : q.outcome.isSome = true

/-- A request in the queue. -/
structure Waiting (q : Request X V) : Prop where
  state : q.state = .queued
  result : q.result = none
  operation : q.operation.isSome = true
  execution : q.gate.execution = .awaitingEntry

/-- A slot, with the requests and the maintenance. -/
structure SlotOk (requests : ℕ → Request X V) (maintenance : Option Maintenance) (i : ℕ)
    (s : Slot X V) : Prop where
  owner : s.owner.isSome = s.state.owns
  leased : s.state = .leased →
    ∃ w, s.work = some w ∧ s.lease = some w.request ∧ Given (requests w.request) w
  free : s.state ≠ .leased → s.work = none ∧ ∀ r, s.lease = some r → Settling (requests r)
  closing : s.state = .closing → ∃ c, s.owner = some c ∧ maintenance = some (.closeSlot i c)
  connecting : s.state = .connecting → maintenance = some (.connect i)
  unmaintained : s.state ≠ .closing → s.state ≠ .connecting →
    maintenance.bind Maintenance.slot ≠ some i

/-- A request is where its state says. -/
structure Placed (p : Pool X V) (r : ℕ) : Prop where
  queued : (p.requests r).state = .queued → r ∈ p.queue
  leased : (p.requests r).state = .dispatched ∨ (p.requests r).state = .settling →
    ∃ i < p.connections, (p.slots i).lease = some r
  finished : (p.requests r).state = .finished ↔ (p.requests r).result.isSome = true

/-- A request that has no result and is nowhere. -/
structure Dangling (p : Pool X V) (r : ℕ) : Prop where
  admitted : r < p.admitted
  queue : r ∉ p.queue
  lease : ∀ i < p.connections, (p.slots i).lease ≠ some r
  result : (p.requests r).result = none

/-- **The parts of the pool fit together**, but for a request `d` that is nowhere. -/
structure Core (d : Option ℕ) (p : Pool X V) : Prop where
  slot : ∀ i < p.connections, SlotOk p.requests p.maintenance i (p.slots i)
  lease : ∀ i < p.connections, ∀ j < p.connections, ∀ r,
    (p.slots i).lease = some r → (p.slots j).lease = some r → i = j
  leased : ∀ i < p.connections, ∀ r, (p.slots i).lease = some r → r < p.admitted
  nodup : p.queue.Nodup
  queue : ∀ r ∈ p.queue, r < p.admitted ∧ (p.requests r).node = true ∧ Waiting (p.requests r)
  placed : ∀ r < p.admitted, d ≠ some r → Placed p r
  dangling : ∀ r, d = some r → Dangling p r
  busy : p.maintenanceBusy = p.maintenance.isSome
  maintenance : ∀ i, p.maintenance.bind Maintenance.slot = some i → i < p.connections

/-- What a function leaves alone. -/
structure Frame (p t : Pool X V) : Prop where
  connections : t.connections = p.connections
  queueCapacity : t.queueCapacity = p.queueCapacity
  lifecycle : t.lifecycle = p.lifecycle
  shutdownResult : t.shutdownResult = p.shutdownResult

theorem Frame.refl (p : Pool X V) : Frame p p := ⟨rfl, rfl, rfl, rfl⟩

theorem Frame.trans {u : Pool X V} (h : Frame p t) (h' : Frame t u) : Frame p u :=
  ⟨h'.connections.trans h.connections, h'.queueCapacity.trans h.queueCapacity,
    h'.lifecycle.trans h.lifecycle, h'.shutdownResult.trans h.shutdownResult⟩

/-- A change to a pool whose parts fit together. -/
structure Move (p t : Pool X V) : Prop where
  core : Core none p
  change : ∃ completes, Change p completes t

abbrev Changes : Pool X V → Pool X V → Prop := Relation.ReflTransGen Move

theorem Core.changes {b : Bool} (h : Core none p) (hc : Change p b t) : Changes p t :=
  .single ⟨h, b, hc⟩

/-- Changes, one of which is what a helper has done. -/
def Completes (p t : Pool X V) : Prop :=
  ∃ u v, Changes p u ∧ Core none u ∧ Change u true v ∧ Changes v t

theorem Completes.changes (h : Completes p t) : Changes p t := by
  obtain ⟨u, v, hbefore, hc, hchange, hafter⟩ := h
  exact (hbefore.tail ⟨hc, true, hchange⟩).trans hafter

theorem Core.completes {u : Pool X V} (h : Core none p) (hc : Change p true u)
    (hafter : Changes u t) : Completes p t := ⟨p, u, .refl, h, hc, hafter⟩

theorem Completes.head {u : Pool X V} (hbefore : Changes p u) (h : Completes u t) :
    Completes p t := by
  obtain ⟨v, w, hv, hrest⟩ := h
  exact ⟨v, w, hbefore.trans hv, hrest⟩

theorem SlotState.ne_leased_of_done {a : SlotState} (h : a.done = true) : a ≠ .leased := by
  rintro rfl
  cases h

/-! ### Single changes -/

namespace Pool

@[simp] theorem slots_modifySlot_self (i : ℕ) (f : Slot X V → Slot X V) (p : Pool X V) :
    (p.modifySlot i f).slots i = f (p.slots i) := Function.update_self ..

theorem slots_modifySlot_of_ne {j : ℕ} (h : j ≠ i) (f : Slot X V → Slot X V) (p : Pool X V) :
    (p.modifySlot i f).slots j = p.slots j := Function.update_of_ne h ..

@[simp] theorem requests_modifyRequest_self (r : ℕ) (f : Request X V → Request X V)
    (p : Pool X V) : (p.modifyRequest r f).requests r = f (p.requests r) :=
  Function.update_self ..

theorem requests_modifyRequest_of_ne {j : ℕ} (h : j ≠ r) (f : Request X V → Request X V)
    (p : Pool X V) : (p.modifyRequest r f).requests j = p.requests j := Function.update_of_ne h ..

end Pool

variable {requests requests' : ℕ → Request X V} {m : Option Maintenance} {s : Slot X V}

/-- A slot knows of the requests only the one it is leased to. -/
theorem SlotOk.of_requests (h : SlotOk requests m i s)
    (hsame : ∀ r, s.lease = some r → requests' r = requests r) : SlotOk requests' m i s where
  owner := h.owner
  leased hs := by
    obtain ⟨w, hw, hl, hg⟩ := h.leased hs
    exact ⟨w, hw, hl, hsame _ hl ▸ hg⟩
  free hs := ⟨(h.free hs).1, fun r hr => hsame r hr ▸ (h.free hs).2 r hr⟩
  closing := h.closing
  connecting := h.connecting
  unmaintained := h.unmaintained

/-- A request that a slot is leased to is under way. -/
theorem Core.of_lease (h : Core d p) (hi : i < p.connections)
    (hl : (p.slots i).lease = some r) :
    ((p.requests r).state = .dispatched ∨ (p.requests r).state = .settling) ∧
      (p.requests r).result = none := by
  by_cases hs : (p.slots i).state = .leased
  · obtain ⟨w, -, hw, hg⟩ := (h.slot i hi).leased hs
    cases hw.symm.trans hl
    exact ⟨.inl hg.state, hg.result⟩
  · have hsettling := ((h.slot i hi).free hs).2 r hl
    exact ⟨.inr hsettling.state, hsettling.result⟩

theorem Core.not_mem_queue_of_lease (h : Core d p) (hi : i < p.connections)
    (hl : (p.slots i).lease = some r) : r ∉ p.queue := fun hq => by
  have hstate := (h.queue r hq).2.2.state
  rcases (h.of_lease hi hl).1 with hs | hs <;> rw [hs] at hstate <;> cases hstate

theorem Core.result_of_queue (h : Core d p) (hr : r ∈ p.queue) : (p.requests r).result = none :=
  (h.queue r hr).2.2.result

/-- A log entry changes nothing else. -/
theorem Core.record (h : Core d p) (e : Event) : Core d (p.record e) :=
  ⟨h.slot, h.lease, h.leased, h.nodup, h.queue, fun r hr hd => ⟨(h.placed r hr hd).queued,
    (h.placed r hr hd).leased, (h.placed r hr hd).finished⟩,
    fun r hd => ⟨(h.dangling r hd).admitted, (h.dangling r hd).queue, (h.dangling r hd).lease,
      (h.dangling r hd).result⟩, h.busy, h.maintenance⟩

/-- A change to the slots and the log alone. -/
theorem Core.modifySlot {f : Slot X V → Slot X V} (h : Core d p)
    (hf : SlotOk p.requests p.maintenance i (f (p.slots i)))
    (hlease : (f (p.slots i)).lease = (p.slots i).lease) : Core d (p.modifySlot i f) := by
  have hsame : ∀ j, ((p.modifySlot i f).slots j).lease = (p.slots j).lease := by
    intro j
    by_cases hj : j = i
    · rw [hj, Pool.slots_modifySlot_self, hlease]
    · rw [Pool.slots_modifySlot_of_ne hj]
  refine ⟨fun j hj => ?_, ?_, ?_, h.nodup, h.queue, fun r hr hd => ?_, fun r hd => ?_, h.busy,
    h.maintenance⟩
  · by_cases hji : j = i
    · rw [hji, Pool.slots_modifySlot_self]
      exact hf
    · rw [Pool.slots_modifySlot_of_ne hji]
      exact h.slot j hj
  · intro j hj k hk r hjr hkr
    rw [hsame] at hjr hkr
    exact h.lease j hj k hk r hjr hkr
  · intro j hj r hjr
    rw [hsame] at hjr
    exact h.leased j hj r hjr
  · have hp := h.placed r hr hd
    refine ⟨hp.queued, fun hs => ?_, hp.finished⟩
    obtain ⟨j, hj, hjr⟩ := hp.leased hs
    exact ⟨j, hj, (hsame j).trans hjr⟩
  · have hp := h.dangling r hd
    exact ⟨hp.admitted, hp.queue, fun j hj => (hsame j).symm ▸ hp.lease j hj, hp.result⟩

/-- A slot that is not leased changes its state. -/
theorem Core.become {a : SlotState} (h : Core d p) (hi : i < p.connections)
    (hs : (p.slots i).state ≠ .leased) (ha : a ≠ .leased)
    (howns : a.owns = (p.slots i).state.owns) (hclosing : a ≠ .closing)
    (hconnecting : a ≠ .connecting) (hm : p.maintenance.bind Maintenance.slot ≠ some i) :
    Core d (p.modifySlot i (Slot.become a)) := by
  have hok := h.slot i hi
  exact h.modifySlot ⟨hok.owner.trans howns.symm, fun he => absurd he ha, fun _ => hok.free hs,
    fun he => absurd he hclosing, fun he => absurd he hconnecting, fun _ _ => hm⟩ rfl

/-- A request that a slot is leased to changes. -/
theorem Core.modifyLeased {f : Request X V → Request X V} (h : Core d p)
    (hi : i < p.connections) (hl : (p.slots i).lease = some r)
    (hstate : (f (p.requests r)).state = (p.requests r).state)
    (hresult : (f (p.requests r)).result = (p.requests r).result)
    (hslot : SlotOk (p.modifyRequest r f).requests p.maintenance i (p.slots i)) :
    Core d (p.modifyRequest r f) := by
  -- a leased request is not in the queue, and no other slot has it
  have hqueue := h.not_mem_queue_of_lease hi hl
  have hfields : ∀ x, ((p.modifyRequest r f).requests x).state = (p.requests x).state ∧
      ((p.modifyRequest r f).requests x).result = (p.requests x).result := by
    intro x
    by_cases hx : x = r
    · rw [hx, Pool.requests_modifyRequest_self]
      exact ⟨hstate, hresult⟩
    · rw [Pool.requests_modifyRequest_of_ne hx]
      exact ⟨rfl, rfl⟩
  refine ⟨fun j hj => ?_, h.lease, h.leased, h.nodup, fun x hx => ?_, fun x hx hd => ?_,
    fun x hd => ?_, h.busy, h.maintenance⟩
  · by_cases hji : j = i
    · exact hji ▸ hslot
    · refine (h.slot j hj).of_requests fun x hx => Pool.requests_modifyRequest_of_ne ?_ f p
      rintro rfl
      exact hji (h.lease j hj i hi x hx hl)
  · rw [Pool.requests_modifyRequest_of_ne fun he : x = r => hqueue (he ▸ hx)]
    exact h.queue x hx
  · have hp := h.placed x hx hd
    exact ⟨fun hs => hp.queued ((hfields x).1 ▸ hs), fun hs => hp.leased ((hfields x).1 ▸ hs),
      (hfields x).1 ▸ (hfields x).2 ▸ hp.finished⟩
  · have hp := h.dangling x hd
    exact ⟨hp.admitted, hp.queue, hp.lease, (hfields x).2 ▸ hp.result⟩

/-! ### Requests that are nowhere -/

/-- A request leaves the queue. -/
theorem Core.removeFirst (h : Core none p) (hr : r ∈ p.queue) :
    Core (some r) (p.removeFirst r (p.queue.erase r)) := by
  have hmem : ∀ x, x ∈ p.queue.erase r ↔ x ≠ r ∧ x ∈ p.queue := fun x => h.nodup.mem_erase_iff
  -- what is in the queue is in no lease, so that the request is nowhere after it
  have hlease : ∀ j < p.connections, (p.slots j).lease ≠ some r := fun j hj hl =>
    h.not_mem_queue_of_lease hj hl hr
  have hfields : ∀ x, ((p.removeFirst r (p.queue.erase r)).requests x).state =
      (p.requests x).state ∧ ((p.removeFirst r (p.queue.erase r)).requests x).result =
        (p.requests x).result := by
    intro x
    by_cases hx : x = r
    · subst hx
      simp [Pool.removeFirst, Request.leaveQueue]
    · rw [Pool.removeFirst, Pool.requests_modifyRequest_of_ne hx]
      exact ⟨rfl, rfl⟩
  refine ⟨fun j hj => ?_, h.lease, h.leased, h.nodup.erase r, fun x hx => ?_, fun x hx hd => ?_,
    fun x hd => ?_, h.busy, h.maintenance⟩
  · refine (h.slot j hj).of_requests fun x hx => Pool.requests_modifyRequest_of_ne ?_ _ _
    rintro rfl
    exact hlease j hj hx
  · obtain ⟨hne, hx⟩ := (hmem x).mp hx
    rw [Pool.removeFirst, Pool.requests_modifyRequest_of_ne hne]
    exact h.queue x hx
  · have hp := h.placed x hx nofun
    have hne : x ≠ r := fun he => hd (he ▸ rfl)
    exact ⟨fun hs => (hmem x).mpr ⟨hne, hp.queued ((hfields x).1 ▸ hs)⟩,
      fun hs => hp.leased ((hfields x).1 ▸ hs), (hfields x).1 ▸ (hfields x).2 ▸ hp.finished⟩
  · cases hd
    exact ⟨(h.queue r hr).1, fun hm => ((hmem r).mp hm).1 rfl, hlease,
      (hfields r).2 ▸ h.result_of_queue hr⟩

/-- A request that is nowhere is finished. -/
theorem Core.finish (h : Core (some r) p) (result : Result X V) :
    AsyncPool.finish r result p =
      some ((p.modifyRequest r (Request.finish result)).record (.finished r)) ∧
        Core none ((p.modifyRequest r (Request.finish result)).record (.finished r)) := by
  -- it has no result yet, so that filling it does not fail
  obtain ⟨hadmitted, hqueue, hlease, hresult⟩ := h.dangling r rfl
  refine ⟨by rw [AsyncPool.finish, hresult], Core.record ?_ _⟩
  refine ⟨fun j hj => ?_, h.lease, h.leased, h.nodup, fun x hx => ?_, fun x hx _ => ?_, nofun,
    h.busy, h.maintenance⟩
  · refine (h.slot j hj).of_requests fun x hx => Pool.requests_modifyRequest_of_ne ?_ _ _
    rintro rfl
    exact hlease j hj hx
  · rw [Pool.requests_modifyRequest_of_ne fun he : x = r => hqueue (he ▸ hx)]
    exact h.queue x hx
  -- a finished request is neither waiting nor leased
  · by_cases hxr : x = r
    · subst hxr
      refine ⟨fun hs => ?_, fun hs => ?_, ?_⟩
      · rw [Pool.requests_modifyRequest_self] at hs
        cases hs
      · rw [Pool.requests_modifyRequest_self] at hs
        rcases hs with hs | hs <;> cases hs
      · rw [Pool.requests_modifyRequest_self]
        exact iff_of_true rfl rfl
    · have hp := h.placed x hx fun he => hxr (Option.some.inj he).symm
      have hsame := Pool.requests_modifyRequest_of_ne hxr (Request.finish result) p
      exact ⟨fun hs => hp.queued (hsame ▸ hs), fun hs => hp.leased (hsame ▸ hs),
        hsame.symm ▸ hp.finished⟩

/-- A slot whose work has ended gives its request back. -/
theorem Core.release (h : Core none p) (hi : i < p.connections)
    (hs : (p.slots i).state ≠ .leased) (hl : (p.slots i).lease = some r) :
    Core (some r) (p.modifySlot i Slot.release) := by
  have hok := h.slot i hi
  -- the other leases stay
  have hlease : ∀ j x, ((p.modifySlot i Slot.release).slots j).lease = some x →
      j ≠ i ∧ (p.slots j).lease = some x := by
    intro j x hx
    by_cases hj : j = i
    · subst hj
      rw [Pool.slots_modifySlot_self] at hx
      cases hx
    · rw [Pool.slots_modifySlot_of_ne hj] at hx
      exact ⟨hj, hx⟩
  refine ⟨fun j hj => ?_, fun j hj k hk x hjx hkx => ?_, fun j hj x hjx => ?_, h.nodup, h.queue,
    fun x hx hd => ?_, fun x hd => ?_, h.busy, h.maintenance⟩
  · by_cases hji : j = i
    · subst hji
      rw [Pool.slots_modifySlot_self]
      exact ⟨hok.owner, fun he => absurd he hs, fun _ => ⟨(hok.free hs).1, nofun⟩, hok.closing,
        hok.connecting, hok.unmaintained⟩
    · rw [Pool.slots_modifySlot_of_ne hji]
      exact h.slot j hj
  · exact h.lease j hj k hk x (hlease j x hjx).2 (hlease k x hkx).2
  · exact h.leased j hj x (hlease j x hjx).2
  · have hp := h.placed x hx nofun
    refine ⟨hp.queued, fun hstate => ?_, hp.finished⟩
    obtain ⟨j, hj, hjx⟩ := hp.leased hstate
    refine ⟨j, hj, ?_⟩
    by_cases hji : j = i
    · subst hji
      exact absurd (hl.symm.trans hjx) hd
    · rw [Pool.slots_modifySlot_of_ne hji]
      exact hjx
  -- the request is nowhere now: no other slot had it
  · cases hd
    refine ⟨h.leased i hi r hl, h.not_mem_queue_of_lease hi hl, fun j hj hjx => ?_,
      (h.of_lease hi hl).2⟩
    obtain ⟨hji, hjx⟩ := hlease j r hjx
    exact hji (h.lease j hj i hi r hjx hl)

/-! ### Leases -/

/-- **The lease of a slot whose work has ended is finished.** -/
theorem finishLease_spec (h : Core none p) (hi : i < p.connections)
    (hs : (p.slots i).state.done = true) : ∃ t, finishLease i p = some t ∧ Core none t ∧
      Frame p t ∧ t.slots = Function.update p.slots i (p.slots i).release ∧ t.queue = p.queue ∧
        t.maintenance = p.maintenance ∧ Changes p t := by
  have hleased := SlotState.ne_leased_of_done hs
  cases hl : (p.slots i).lease with
  | none =>
    have he : (p.slots i).release = p.slots i := by rw [Slot.release, ← hl]
    refine ⟨p, by rw [finishLease, hl], h, .refl p, ?_, rfl, rfl, .refl⟩
    rw [he, Function.update_eq_self]
  | some r =>
    obtain ⟨outcome, ho⟩ :=
      Option.isSome_iff_exists.mp (((h.slot i hi).free hleased).2 r hl).outcome
    obtain ⟨hf, hc⟩ := (h.release hi hleased hl).finish outcome
    refine ⟨_, ?_, hc, ⟨rfl, rfl, rfl, rfl⟩, rfl, rfl, rfl,
      h.changes (.finishLease hi hs hl ho)⟩
    rw [finishLease, hl]
    simp only [ho]
    exact hf

theorem addLeaseCleanup_spec (h : Core none p) (hi : i < p.connections)
    (hs : (p.slots i).state = .closing ∨ (p.slots i).state = .connecting)
    (result : Answer Error X) : ∃ t, addLeaseCleanup i result p = some t ∧ Core none t ∧
      Frame p t ∧ t.slots = p.slots ∧ t.queue = p.queue ∧ t.maintenance = p.maintenance ∧
        Changes p t := by
  have hleased : (p.slots i).state ≠ .leased := by
    rcases hs with hs | hs <;> rw [hs] <;> decide
  cases hl : (p.slots i).lease with
  | none => exact ⟨p, by rw [addLeaseCleanup, hl], h, .refl p, rfl, rfl, rfl, .refl⟩
  | some r =>
    have hok := h.slot i hi
    have hsettling := (hok.free hleased).2 r hl
    obtain ⟨outcome, ho⟩ := Option.isSome_iff_exists.mp hsettling.outcome
    refine ⟨p.modifyRequest r (Request.addCleanup result outcome), ?_,
      h.modifyLeased hi hl rfl rfl ⟨hok.owner, fun he => absurd he hleased, fun _ =>
        ⟨(hok.free hleased).1, fun x hx => ?_⟩, hok.closing, hok.connecting, hok.unmaintained⟩,
      ⟨rfl, rfl, rfl, rfl⟩, rfl, rfl, rfl, h.changes (.cleanup result hi hs hl ho)⟩
    · rw [addLeaseCleanup, hl]
      simp only [ho]
    · cases hl.symm.trans hx
      rw [Pool.requests_modifyRequest_self]
      exact ⟨hsettling.state, hsettling.result, rfl⟩

/-! ### Slots, one after another -/

theorem eachSlot_append (f : ℕ → Pool X V → Option (Pool X V)) (l k : List ℕ) (p : Pool X V) :
    eachSlot f (l ++ k) p = (eachSlot f l p).bind (eachSlot f k) := by
  induction l generalizing p with
  | nil => rfl
  | cons i l ih =>
    rw [List.cons_append, eachSlot, eachSlot, Option.bind_assoc]
    exact congrArg _ (funext ih)

/-- What each of the slots keeps, holds after all of them. -/
theorem eachSlot_range {f : ℕ → Pool X V → Option (Pool X V)} {I : ℕ → Pool X V → Prop} {n : ℕ}
    (hf : ∀ i < n, ∀ p, I i p → ∃ t, f i p = some t ∧ I (i + 1) t) (h : I 0 p) :
    ∃ t, eachSlot f (List.range n) p = some t ∧ I n t := by
  induction n with
  | zero => exact ⟨p, rfl, h⟩
  | succ n ih =>
    obtain ⟨u, hu, hI⟩ := ih fun i hi => hf i (Nat.lt_succ_of_lt hi)
    obtain ⟨t, ht, hI⟩ := hf n (Nat.lt_succ_self n) u hI
    refine ⟨t, ?_, hI⟩
    rw [List.range_succ, eachSlot_append, hu]
    change (f n u).bind (eachSlot f []) = some t
    rw [ht]
    rfl

/-! ### The end of the pool -/

/-- The queue is cleared. -/
theorem clear_spec {l : List ℕ} (h : Core none p) (hl : p.queue = l) :
    ∃ t, clear l p = some t ∧ Core none t ∧ Frame p t ∧ t.slots = p.slots ∧ t.queue = [] ∧
      t.maintenance = p.maintenance ∧ Changes p t := by
  induction l generalizing p with
  | nil => exact ⟨p, rfl, h, .refl p, rfl, hl, rfl, .refl⟩
  | cons r rest ih =>
    have herase : p.queue.erase r = rest := by rw [hl, List.erase_cons_head]
    have hcore := h.removeFirst (r := r) (hl ▸ List.mem_cons_self)
    rw [herase] at hcore
    obtain ⟨hf, hc⟩ := hcore.finish (.error (.expected .poolShutdown))
    obtain ⟨t, ht, hct, hframe, hslots, hqueue, hm, hchanges⟩ := ih hc rfl
    refine ⟨t, ?_, hct, ⟨hframe.connections, hframe.queueCapacity, hframe.lifecycle,
      hframe.shutdownResult⟩, hslots, hqueue, hm, .head ⟨h, _, .refuse hl⟩ hchanges⟩
    rw [clear, hf]
    exact ht

theorem Core.latch (h : Core none p) (hi : i < p.connections)
    (hl : (p.slots i).lease = some r) : Core none (latch r p) := by
  have hok := h.slot i hi
  refine h.modifyLeased hi hl rfl rfl ⟨hok.owner, fun hs => ?_, fun hs => ?_, hok.closing,
    hok.connecting, hok.unmaintained⟩
  · obtain ⟨w, hw, hlw, hg⟩ := hok.leased hs
    cases hlw.symm.trans hl
    refine ⟨w, hw, hlw, ?_⟩
    rw [Pool.requests_modifyRequest_self]
    exact ⟨hg.state, hg.result, hg.entry⟩
  · refine ⟨(hok.free hs).1, fun x hx => ?_⟩
    cases hl.symm.trans hx
    have hsettling := (hok.free hs).2 r hl
    rw [Pool.requests_modifyRequest_self]
    exact ⟨hsettling.state, hsettling.result, hsettling.outcome⟩

theorem latchLease_spec (h : Core none p) (hi : i < p.connections)
    (hidle : (p.slots i).state = .idle → (p.slots i).lease = none) :
    Core none (latchLease i p) ∧ Frame p (latchLease i p) ∧ (latchLease i p).slots = p.slots ∧
      (latchLease i p).queue = p.queue ∧ (latchLease i p).maintenance = p.maintenance ∧
        Changes p (latchLease i p) := by
  rw [latchLease]
  cases hl : (p.slots i).lease with
  | none => exact ⟨h, .refl p, rfl, rfl, rfl, .refl⟩
  | some r =>
    have hs : (p.slots i).state ≠ .idle := fun he =>
      Option.some_ne_none r (hl.symm.trans (hidle he))
    exact ⟨h.latch hi hl, ⟨rfl, rfl, rfl, rfl⟩, rfl, rfl, rfl, h.changes (.latch hi hl hs)⟩

/-- What the end of the pool makes of a slot. -/
def Slot.stopped (s : Slot X V) : Slot X V :=
  match s.state with
  | .idle => s.become .needsClose
  | .needsConnect => (s.become .closed).release
  | .leased | .needsClose | .closing | .connecting | .closed | .closeFailed => s

theorem stopSlot_spec (h : Core none p) (hi : i < p.connections)
    (hlife : p.lifecycle = .stopping)
    (hidle : (p.slots i).state = .idle → (p.slots i).lease = none) :
    ∃ t, stopSlot i p = some t ∧ Core none t ∧ Frame p t ∧
      t.slots = Function.update p.slots i (p.slots i).stopped ∧ t.queue = p.queue ∧
        t.maintenance = p.maintenance ∧ Changes p t := by
  -- the request of the slot is cancelled first
  obtain ⟨hc, hframe, hslots, hqueue, hm, hlatch⟩ := latchLease_spec h hi hidle
  have hn : i < (latchLease i p).connections := hframe.connections ▸ hi
  have hlife : (latchLease i p).lifecycle = .stopping := hframe.lifecycle.trans hlife
  rw [stopSlot, ← hslots, ← hqueue, ← hm]
  generalize latchLease i p = u at hc hframe hn hlife hlatch
  have hok := hc.slot i hn
  cases hs : (u.slots i).state with
  -- an open connection is to be closed
  | idle =>
    refine ⟨_, rfl, hc.become hn (hs ▸ by decide) (by decide) (hs ▸ rfl) (by decide) (by decide)
      (hok.unmaintained (hs ▸ by decide) (hs ▸ by decide)), hframe.trans ⟨rfl, rfl, rfl, rfl⟩, ?_,
      rfl, rfl, hlatch.tail ⟨hc, _, .drain hn hs hlife⟩⟩
    rw [Slot.stopped, hs]
    rfl
  -- there is nothing to close: the slot is closed, and its request finished
  | needsConnect =>
    have hclosed := hc.become (a := .closed) hn (hs ▸ by decide) (by decide) (hs ▸ rfl) (by decide)
      (by decide) (hok.unmaintained (hs ▸ by decide) (hs ▸ by decide))
    obtain ⟨t, ht, hct, hft, hst, hqt, hmt, hfinish⟩ := finishLease_spec hclosed hn
      (by rw [Pool.slots_modifySlot_self]; rfl)
    refine ⟨t, ht, hct, hframe.trans ⟨hft.connections, hft.queueCapacity, hft.lifecycle,
      hft.shutdownResult⟩, ?_, hqt, hmt, (hlatch.tail ⟨hc, _, .skip hn hs hlife⟩).trans hfinish⟩
    rw [hst, Pool.slots_modifySlot_self, Slot.stopped, hs, Pool.modifySlot, Function.update_idem]
  -- the helper of the slot, or that of the maintenance, goes on by itself
  | leased | needsClose | closing | connecting | closed | closeFailed =>
    refine ⟨u, rfl, hc, hframe, ?_, rfl, rfl, hlatch⟩
    rw [Slot.stopped, hs, Function.update_eq_self]

/-! ### Maintenance -/

/-- The maintenance of a slot has begun, or nothing has happened. -/
def Advanced (s s' : Slot X V) : Prop :=
  s' = s ∨ s.state.needsMaintenance = true ∧
    (s' = s.become .closing ∨ s' = s.become .connecting)

/-- Nothing is left that the maintenance helper could start. -/
structure Pumped (p : Pool X V) : Prop where
  slots : p.maintenanceBusy = false →
    ∀ i < p.connections, (p.slots i).state.needsMaintenance = false
  database : p.maintenanceBusy = false → p.lifecycle = .stopping →
    ∃ i < p.connections, (p.slots i).state.over = false

/-- The maintenance of a slot begins. -/
theorem Core.maintain {a : SlotState} {b : Maintenance} (h : Core none p)
    (hi : i < p.connections) (hm : p.maintenance = none) (hs : (p.slots i).state ≠ .leased)
    (howns : a.owns = (p.slots i).state.owns)
    (hjob : a = .closing ∧ (∃ c, (p.slots i).owner = some c ∧ b = .closeSlot i c) ∨
      a = .connecting ∧ b = .connect i) :
    Core none ((p.modifySlot i (Slot.become a)).start b) := by
  have hslot : b.slot = some i := by
    rcases hjob with ⟨-, c, -, rfl⟩ | ⟨-, rfl⟩ <;> rfl
  have hlease : ∀ j, ((p.modifySlot i (Slot.become a)).slots j).lease = (p.slots j).lease := by
    intro j
    by_cases hj : j = i
    · rw [hj, Pool.slots_modifySlot_self]
      rfl
    · rw [Pool.slots_modifySlot_of_ne hj]
  refine ⟨fun j hj => ?_, fun j hj k hk x hjx hkx => ?_, fun j hj x hjx => ?_, h.nodup, h.queue,
    fun x hx hd => ?_, nofun, rfl, fun j hj => ?_⟩
  · have hok := h.slot j hj
    by_cases hji : j = i
    · subst hji
      change SlotOk p.requests (some b) j ((p.modifySlot j (Slot.become a)).slots j)
      rw [Pool.slots_modifySlot_self]
      -- the slot is closing or connecting, and the job says so
      refine ⟨hok.owner.trans howns.symm, fun he => ?_, fun _ => hok.free hs, fun he => ?_,
        fun he => ?_, fun h₁ h₂ => ?_⟩
      · have he : a = .leased := he
        rcases hjob with ⟨rfl, -⟩ | ⟨rfl, -⟩ <;> cases he
      · have he : a = .closing := he
        rcases hjob with ⟨-, c, hc, rfl⟩ | ⟨rfl, -⟩
        · exact ⟨c, hc, rfl⟩
        · cases he
      · have he : a = .connecting := he
        rcases hjob with ⟨rfl, -⟩ | ⟨-, rfl⟩
        · cases he
        · rfl
      · exact (hjob.elim (fun hj => h₁ hj.1) fun hj => h₂ hj.1).elim
    · change SlotOk p.requests (some b) j ((p.modifySlot i (Slot.become a)).slots j)
      rw [Pool.slots_modifySlot_of_ne hji]
      -- no other slot is, since there was no job before
      refine ⟨hok.owner, hok.leased, hok.free, fun he => ?_, fun he => ?_, fun _ _ he => ?_⟩
      · obtain ⟨c, -, hc⟩ := hok.closing he
        cases hm.symm.trans hc
      · cases hm.symm.trans (hok.connecting he)
      · have he : b.slot = some j := he
        exact hji (Option.some.inj (he.symm.trans hslot))
  · exact h.lease j hj k hk x ((hlease j).symm.trans hjx) ((hlease k).symm.trans hkx)
  · exact h.leased j hj x ((hlease j).symm.trans hjx)
  · have hp := h.placed x hx hd
    refine ⟨hp.queued, fun hstate => ?_, hp.finished⟩
    obtain ⟨j, hj, hjx⟩ := hp.leased hstate
    exact ⟨j, hj, (hlease j).trans hjx⟩
  · have hj : b.slot = some j := hj
    exact Option.some.inj (hslot.symm.trans hj) ▸ hi

/-- The end of the database begins. -/
theorem Core.closeDatabase (h : Core none p) (hm : p.maintenance = none) :
    Core none (p.start .closeDatabase) := by
  refine ⟨fun j hj => ?_, h.lease, h.leased, h.nodup, h.queue, fun x hx hd =>
    ⟨(h.placed x hx hd).queued, (h.placed x hx hd).leased, (h.placed x hx hd).finished⟩, nofun, rfl,
    nofun⟩
  have hok := h.slot j hj
  refine ⟨hok.owner, hok.leased, hok.free, fun he => ?_, fun he => ?_, fun _ _ => nofun⟩
  · obtain ⟨c, -, hc⟩ := hok.closing he
    cases hm.symm.trans hc
  · cases hm.symm.trans (hok.connecting he)

/-- **One job of the maintenance helper is started**, when there is one and it is free. -/
theorem pump_spec (h : Core none p) : ∃ t, pump p = some t ∧ Core none t ∧ Frame p t ∧
    t.queue = p.queue ∧ (∀ j, Advanced (p.slots j) (t.slots j)) ∧
      (t.maintenance = some .closeDatabase → p.maintenance = some .closeDatabase ∨
        p.lifecycle = .stopping ∧ ∀ j < p.connections, (p.slots j).state.over = true) ∧
          Pumped t ∧ Changes p t := by
  cases hb : p.maintenanceBusy with
  -- the helper is busy: nothing is started
  | true =>
    exact ⟨p, by rw [pump, hb]; rfl, h, .refl p, rfl, fun j => .inl rfl, fun hm => .inl hm,
      ⟨fun he => absurd (he.symm.trans hb) Bool.false_ne_true,
        fun he => absurd (he.symm.trans hb) Bool.false_ne_true⟩, .refl⟩
  | false =>
    have hm : p.maintenance = none := by
      have hbusy := h.busy
      rw [hb] at hbusy
      exact Option.isSome_eq_false_iff.mp hbusy.symm |> Option.isNone_iff_eq_none.mp
    cases hf : (List.range p.connections).find? fun i => (p.slots i).state.needsMaintenance with
    -- the first slot that needs maintenance gets it
    | some i =>
      have hneeds := List.find?_some hf
      have hi := List.mem_range.mp (List.mem_of_find?_eq_some hf)
      have hrun : pump p = maintenanceJob i p := by
        rw [pump, hb, hf]
        rfl
      have hadvanced : ∀ {state : SlotState}, state = .closing ∨ state = .connecting →
          ∀ j, Advanced (p.slots j) ((p.modifySlot i (Slot.become state)).slots j) := by
        intro state hstate j
        by_cases hj : j = i
        · subst hj
          rw [Pool.slots_modifySlot_self]
          exact .inr ⟨hneeds, hstate.imp (congrArg (Slot.become · (p.slots j)))
            (congrArg (Slot.become · (p.slots j)))⟩
        · rw [Pool.slots_modifySlot_of_ne hj]
          exact .inl rfl
      cases hs : (p.slots i).state with
      -- a slot that is to be closed has a connection
      | needsClose =>
        obtain ⟨c, hc⟩ := Option.isSome_iff_exists.mp ((h.slot i hi).owner.trans (hs ▸ rfl))
        have hcore := (h.maintain (a := .closing) (b := .closeSlot i c) hi hm
          (hs ▸ by decide) (hs ▸ rfl) (.inl ⟨rfl, c, hc, rfl⟩)).record (.closing c)
        refine ⟨_, ?_, hcore, ⟨rfl, rfl, rfl, rfl⟩, rfl, hadvanced (.inl rfl), nofun,
          ⟨nofun, nofun⟩, h.changes (.startClose hi hs hc hm)⟩
        rw [hrun, maintenanceJob, hs]
        simp only [hc, startMaintenance, Pool.start, Pool.record, Pool.modifySlot, hm]
      | needsConnect =>
        have hcore := h.maintain (a := .connecting) (b := .connect i) hi hm
          (hs ▸ by decide) (hs ▸ rfl) (.inr ⟨rfl, rfl⟩)
        refine ⟨_, ?_, hcore, ⟨rfl, rfl, rfl, rfl⟩, rfl, hadvanced (.inr rfl), nofun,
          ⟨nofun, nofun⟩, h.changes (.startConnect hi hs hm)⟩
        rw [hrun, maintenanceJob, hs]
        simp only [startMaintenance, Pool.modifySlot, hm]
      | idle | leased | closing | connecting | closed | closeFailed =>
        rw [hs] at hneeds
        cases hneeds
    -- no slot needs maintenance: the database is closed when the pool stops and all are over
    | none =>
      have hneeds : ∀ i < p.connections, (p.slots i).state.needsMaintenance = false := fun i hi =>
        eq_false_of_ne_true (List.find?_eq_none.mp hf i (List.mem_range.mpr hi))
      by_cases hend : p.lifecycle = .stopping ∧
          ∀ i < p.connections, (p.slots i).state.over = true
      · have hcore := (h.closeDatabase hm).record .closingDatabase
        refine ⟨_, ?_, hcore, ⟨rfl, rfl, rfl, rfl⟩, rfl, fun j => .inl rfl, fun _ => .inr hend,
          ⟨nofun, nofun⟩, h.changes (.startDatabase hend.1 hend.2 hm)⟩
        rw [pump, hb, hf]
        have hall : ((List.range p.connections).all fun i => (p.slots i).state.over) = true :=
          List.all_eq_true.mpr fun i hi => hend.2 i (List.mem_range.mp hi)
        simp [hend.1, hall, startMaintenance, Pool.start, Pool.record, hm]
      · refine ⟨p, ?_, h, .refl p, rfl, fun j => .inl rfl, fun hmd => .inl hmd,
          ⟨fun _ => hneeds, fun _ hl => ?_⟩, .refl⟩
        · rw [pump, hb, hf]
          have hn : ¬ (decide (p.lifecycle = .stopping) &&
              (List.range p.connections).all fun i => (p.slots i).state.over) = true := by
            rw [Bool.and_eq_true, decide_eq_true_eq, List.all_eq_true]
            exact fun hc => hend ⟨hc.1, fun i hi => hc.2 i (List.mem_range.mpr hi)⟩
          simp only [Bool.false_eq_true, if_false, if_neg hn]
        · by_contra hno
          refine hend ⟨hl, fun i hi => ?_⟩
          by_contra ho
          exact hno ⟨i, hi, eq_false_of_ne_true ho⟩

end DuckdbMl.AsyncPool
