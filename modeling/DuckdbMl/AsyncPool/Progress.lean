import DuckdbMl.AsyncPool.Runs
import DuckdbMl.Transition.Ranking

/-!
# The pool gets on

Each completion of a helper uses up a part of a rank, to which only admissions add; and while there
is a request without a result, or the pool is stopping, a helper has something to complete.

## Main definitions

* `Pool.rank p`: what is left to be done

## Main results

* `settles`: every run of completions ends, with all results there
-/

namespace DuckdbMl.AsyncPool

open Transition (Guard sum_update)

variable {X V : Type} {p t : Pool X V} {i r c : ℕ} {b : Bool}

/-! ### The rank -/

def Stage.rank : Stage X V → ℕ
  | .waiting => 3
  | .running => 2
  | .ended _ => 1

/-- What is left to be done with a slot, by the helpers; a slot that waits for a request has more
before it once the pool does not accept any more. -/
def SlotState.rank (accepting : Bool) : SlotState → ℕ
  | .idle => if accepting then 0 else 6
  | .leased => 6
  | .needsClose => 5
  | .closing => 4
  | .needsConnect => if accepting then 3 else 7
  | .connecting => if accepting then 2 else 6
  | .closed | .closeFailed => 0

def Slot.rank (accepting : Bool) (s : Slot X V) : ℕ :=
  s.state.rank accepting + s.work.elim 0 fun w => w.stage.rank

namespace Pool

def accepting (p : Pool X V) : Bool := p.lifecycle = .accepting

def slotRank (p : Pool X V) : ℕ :=
  ∑ i ∈ Finset.range p.connections, (p.slots i).rank p.accepting

/-- The close of the database is before the pool, under way, or done. -/
def databaseRank (p : Pool X V) : ℕ :=
  if p.lifecycle = .stopped then 0 else if p.maintenance = some .closeDatabase then 1 else 2

def rank (p : Pool X V) : ℕ :=
  p.slotRank + 10 * p.queue.length + (if p.accepting then 6 * p.connections else 0) +
    p.databaseRank

end Pool

theorem slotRank_update {s : Slot X V} (hi : i < p.connections)
    (hn : t.connections = p.connections) (hlife : t.lifecycle = p.lifecycle)
    (hslots : t.slots = Function.update p.slots i s) :
    t.slotRank + (p.slots i).rank p.accepting = p.slotRank + s.rank p.accepting := by
  have ha : t.accepting = p.accepting := by rw [Pool.accepting, hlife, Pool.accepting]
  rw [Pool.slotRank, hn, ha, hslots]
  exact sum_update (Slot.rank p.accepting) p.slots hi s

/-- A slot alone changes, and the maintenance does not come to the database. -/
theorem rank_update {s : Slot X V} (hi : i < p.connections) (hn : t.connections = p.connections)
    (hlife : t.lifecycle = p.lifecycle) (hslots : t.slots = Function.update p.slots i s)
    (hm : t.maintenance = some .closeDatabase ↔ p.maintenance = some .closeDatabase) :
    t.rank + (p.slots i).rank p.accepting + 10 * p.queue.length =
      p.rank + s.rank p.accepting + 10 * t.queue.length := by
  have hsum := slotRank_update hi hn hlife hslots
  have ha : t.accepting = p.accepting := by rw [Pool.accepting, hlife, Pool.accepting]
  have hd : t.databaseRank = p.databaseRank := by
    rw [Pool.databaseRank, Pool.databaseRank, hlife]
    simp only [hm]
  rw [Pool.rank, Pool.rank, ha, hn, hd]
  omega

theorem Slot.rank_of_state {s : Slot X V} {a : SlotState} (hs : s.state = a) (hw : s.work = none)
    (accepting : Bool) : s.rank accepting = a.rank accepting := by
  rw [Slot.rank, hs, hw]
  rfl

/-- No slot changes. -/
theorem rank_queue (hn : t.connections = p.connections) (hlife : t.lifecycle = p.lifecycle)
    (hslots : ∀ j, (t.slots j).rank p.accepting = (p.slots j).rank p.accepting)
    (hm : t.maintenance = some .closeDatabase ↔ p.maintenance = some .closeDatabase) :
    t.rank + 10 * p.queue.length = p.rank + 10 * t.queue.length := by
  have ha : t.accepting = p.accepting := by rw [Pool.accepting, hlife, Pool.accepting]
  have hsum : t.slotRank = p.slotRank := by
    rw [Pool.slotRank, hn, ha]
    exact Finset.sum_congr rfl fun j _ => hslots j
  have hd : t.databaseRank = p.databaseRank := by
    rw [Pool.databaseRank, Pool.databaseRank, hlife]
    simp only [hm]
  rw [Pool.rank, Pool.rank, ha, hn, hd, hsum]
  omega

theorem Pool.accepting_of (h : p.lifecycle = .accepting) : p.accepting = true :=
  decide_eq_true h

theorem Pool.not_accepting (h : p.lifecycle ≠ .accepting) : p.accepting = false :=
  decide_eq_false h

/-- A slot that is given a request. -/
theorem rank_give (hc : Core none p) (hi : i < p.connections) (hs : (p.slots i).state = .idle)
    (operation : Operation) : ((p.slots i).give r c operation).rank p.accepting ≤
      (p.slots i).rank p.accepting + 9 := by
  have hw := ((hc.slot i hi).free (hs ▸ by decide)).1
  rw [Slot.rank_of_state hs hw]
  exact Nat.le_add_left 9 _

/-- The work of a slot goes on. -/
theorem rank_reach {w : Work X V} (hw : (p.slots i).work = some w) (a : Stage X V) :
    ((p.slots i).reach a).rank p.accepting + w.stage.rank =
      (p.slots i).rank p.accepting + a.rank := by
  rw [Slot.rank, Slot.rank, Slot.reach, hw]
  simp only [Option.map_some, Option.elim_some, Work.reach]
  omega

/-- A slot that is not leased gets another state. -/
theorem rank_become (hc : Core none p) (hi : i < p.connections)
    (hs : (p.slots i).state ≠ .leased) (a : SlotState) :
    ((p.slots i).become a).rank p.accepting = a.rank p.accepting ∧
      (p.slots i).rank p.accepting = (p.slots i).state.rank p.accepting := by
  have hw := ((hc.slot i hi).free hs).1
  exact ⟨Slot.rank_of_state (s := (p.slots i).become a) rfl hw _, Slot.rank_of_state rfl hw _⟩

/-- A change to one slot that uses up a part of its rank. -/
theorem rank_slot {s : Slot X V} (hi : i < p.connections)
    (hle : s.rank p.accepting + b.toNat ≤ (p.slots i).rank p.accepting)
    (hn : t.connections = p.connections) (hlife : t.lifecycle = p.lifecycle)
    (hslots : t.slots = Function.update p.slots i s)
    (hm : t.maintenance = some .closeDatabase ↔ p.maintenance = some .closeDatabase)
    (hqueue : t.queue = p.queue) (hadmitted : t.admitted = p.admitted) :
    t.rank + 10 * p.admitted + b.toNat ≤ p.rank + 10 * t.admitted := by
  have hrank := rank_update hi hn hlife hslots hm
  rw [hqueue] at hrank
  omega

theorem Slot.rank_stopping (s : Slot X V) : s.rank false ≤ s.rank true + 6 := by
  have hstate : s.state.rank false ≤ s.state.rank true + 6 := by cases s.state <;> decide
  rw [Slot.rank, Slot.rank]
  omega

/-- **A completion uses up a part of the rank**, and only an admission adds to it. -/
theorem Change.rank_le (h : Change p b t) (hc : Core none p) :
    t.rank + 10 * p.admitted + b.toNat ≤ p.rank + 10 * t.admitted := by
  cases h with
  -- an admission is paid for by the ten that `admitted` is worth
  | join operation hlife hroom =>
    have hrank := rank_queue (p := p) (t := (p.addRequest operation).insertLast p.admitted) rfl rfl
      (fun _ => rfl) .rfl
    have hlength : ((p.addRequest operation).insertLast p.admitted).queue.length =
        p.queue.length + 1 := List.length_append
    have hadmitted : ((p.addRequest operation).insertLast p.admitted).admitted =
        p.admitted + 1 := rfl
    rw [Bool.toNat_false]
    omega
  | @serveNew i c operation hi hs hl hown hq =>
    have hrank := rank_update (p := p) (s := (p.slots i).give p.admitted c operation)
      (t := (p.addRequest operation).given i p.admitted c operation) hi rfl rfl rfl .rfl
    have hgive := rank_give (r := p.admitted) (c := c) hc hi hs operation
    have hqueue : ((p.addRequest operation).given i p.admitted c operation).queue = p.queue := rfl
    have hadmitted : ((p.addRequest operation).given i p.admitted c operation).admitted =
        p.admitted + 1 := rfl
    rw [hqueue] at hrank
    rw [Bool.toNat_false]
    omega
  -- a request that leaves the queue gives back its ten, of which the slot takes some
  | @serve i c r rest operation hi hs hl hown hq =>
    have hrank := rank_update (p := p) (s := (p.slots i).give r c operation)
      (t := (p.removeFirst r rest).given i r c operation) hi rfl rfl rfl .rfl
    have hgive := rank_give (r := r) (c := c) hc hi hs operation
    have hqueue : ((p.removeFirst r rest).given i r c operation).queue = rest := rfl
    have hlength : p.queue.length = rest.length + 1 := by rw [hq, List.length_cons]
    have hadmitted : ((p.removeFirst r rest).given i r c operation).admitted = p.admitted := rfl
    rw [hqueue] at hrank
    rw [Bool.toNat_false]
    omega
  | @withdraw r hr =>
    have hrank := rank_queue (p := p) (t := (AsyncPool.latch r (p.removeFirst r
      (p.queue.erase r))).finished r (.error (.expected .cancelled))) rfl rfl (fun _ => rfl) .rfl
    have hle : (p.queue.erase r).length ≤ p.queue.length := List.length_erase_le
    rw [Bool.toNat_false]
    change _ ≤ p.rank + 10 * p.admitted
    change _ = p.rank + 10 * (p.queue.erase r).length at hrank
    omega
  | @refuse r rest hq =>
    have hrank := rank_queue (p := p) (t := (p.removeFirst r rest).finished r
      (.error (.expected .poolShutdown))) rfl rfl (fun _ => rfl) .rfl
    have hlength : p.queue.length = rest.length + 1 := by rw [hq, List.length_cons]
    rw [Bool.toNat_false]
    change _ ≤ p.rank + 10 * p.admitted
    change _ = p.rank + 10 * rest.length at hrank
    omega
  -- the completions: each uses up at least one of the stage of the work
  | @enter i w hi hw ha hg =>
    have hreach := rank_reach hw (.running : Stage X V)
    rw [ha] at hreach
    exact rank_slot hi (Nat.le_of_add_le_add_right (b := 2) hreach.le) rfl rfl rfl .rfl rfl rfl
  | @bypass i w hi hw ha hg =>
    have hreach := rank_reach hw (.ended (.error (.expected .cancelled)))
    rw [ha] at hreach
    change _ + 3 = _ + 1 at hreach
    exact rank_slot hi (by rw [Bool.toNat_true]; omega) rfl rfl rfl .rfl rfl rfl
  | @leave i w result hi hw ha =>
    have hreach := rank_reach hw (.ended result)
    rw [ha] at hreach
    exact rank_slot hi (Nat.le_of_add_le_add_right (b := 1) hreach.le) rfl rfl rfl .rfl rfl rfl
  | @abandon i w x hi hw ha =>
    have hreach := rank_reach hw (.ended (.error (.raised x)))
    rw [ha] at hreach
    change _ + 3 = _ + 1 at hreach
    exact rank_slot hi (by rw [Bool.toNat_true]; omega) rfl rfl rfl .rfl rfl rfl
  -- the state after the work is worth less than the work that has ended
  | @settle i w result a hi hw hstage ha =>
    refine rank_slot (s := (p.slots i).finishWork.become a) hi ?_ rfl rfl
      (Pool.slots_settling i w result a p) .rfl rfl rfl
    have hs := (hc.of_work hi hw).1
    rw [Slot.rank, Slot.rank, hw, hs]
    change a.rank p.accepting + 0 + 1 ≤ 6 + w.stage.rank
    rw [hstage]
    change a.rank p.accepting + 0 + 1 ≤ 6 + 1
    rcases ha with rfl | ⟨rfl, -, -, hlife⟩
    · cases p.accepting <;> decide
    · rw [Pool.accepting_of hlife]
      decide
  | @finishLease i r outcome hi hs hl ho =>
    exact rank_slot (s := (p.slots i).release) hi le_rfl rfl rfl rfl .rfl rfl rfl
  | @drain i hi hs hlife =>
    have hrank := rank_become hc hi (hs ▸ by decide) .needsClose
    refine rank_slot (s := (p.slots i).become .needsClose) hi ?_ rfl rfl rfl .rfl rfl rfl
    rw [hrank.1, hrank.2, hs, Pool.not_accepting (by rw [hlife]; decide)]
    decide
  | @skip i hi hs hlife =>
    have hrank := rank_become hc hi (hs ▸ by decide) .closed
    refine rank_slot (s := (p.slots i).become .closed) hi ?_ rfl rfl rfl .rfl rfl rfl
    rw [hrank.1]
    exact Nat.zero_le _
  | @startClose i c hi hs hown hm =>
    have hrank := rank_become hc hi (hs ▸ by decide) .closing
    refine rank_slot (s := (p.slots i).become .closing) hi ?_ rfl rfl rfl ?_ rfl rfl
    · rw [hrank.1, hrank.2, hs]
      cases p.accepting <;> decide
    · rw [hm]
      exact iff_of_false (fun he => by cases he) (fun he => by cases he)
  | @startConnect i hi hs hm =>
    have hrank := rank_become hc hi (hs ▸ by decide) .connecting
    refine rank_slot (s := (p.slots i).become .connecting) hi ?_ rfl rfl rfl ?_ rfl rfl
    · rw [hrank.1, hrank.2, hs]
      cases p.accepting <;> decide
    · rw [hm]
      exact iff_of_false (fun he => by cases he) (fun he => by cases he)
  -- closing the database is worth one, and so is the order to close it
  | startDatabase hlife hover hm =>
    rw [Pool.rank, Pool.rank, Bool.toNat_false]
    have hd : ((p.start .closeDatabase).record .closingDatabase).databaseRank ≤
        p.databaseRank := by
      rw [Pool.databaseRank, Pool.databaseRank, hm]
      simp [Pool.start, Pool.record, hlife]
    exact Nat.add_le_add_right (Nat.add_le_add_left hd _) _
  -- maintenance: a state that accepts requests again is worth less than closing or connecting
  | @closed i c a hm ha =>
    obtain ⟨hi, hs, hown⟩ := hc.of_closeSlot hm
    have hwork := ((hc.slot i hi).free (hs ▸ by decide)).1
    refine rank_slot (s := (p.slots i).disown.become a) hi ?_ rfl rfl (slots_closed i c a p) ?_ rfl
      rfl
    · rw [Slot.rank_of_state (s := (p.slots i).disown.become a) rfl hwork,
        Slot.rank_of_state hs hwork]
      change a.rank p.accepting + 1 ≤ _
      rcases ha with ⟨rfl, hlife⟩ | ⟨rfl, -⟩
      · rw [Pool.accepting_of hlife]
        decide
      · cases p.accepting <;> decide
    · rw [hm]
      exact iff_of_false (fun he => by cases he) (fun he => by cases he)
  | @closeFailed i c hm =>
    obtain ⟨hi, hs, hown⟩ := hc.of_closeSlot hm
    have hrank := rank_become hc hi (hs ▸ by decide) .closeFailed
    refine rank_slot (s := (p.slots i).become .closeFailed) hi ?_ rfl rfl rfl ?_ rfl rfl
    · rw [hrank.1, hrank.2, hs]
      cases p.accepting <;> decide
    · rw [hm]
      exact iff_of_false (fun he => by cases he) (fun he => by cases he)
  | @connected i a hm ha =>
    obtain ⟨hi, hs, hown⟩ := hc.of_connect hm
    have hwork := ((hc.slot i hi).free (hs ▸ by decide)).1
    refine rank_slot (s := ((p.slots i).own p.opened).become a) hi ?_ rfl rfl
      (slots_connected i a p) ?_ rfl rfl
    · rw [Slot.rank_of_state (s := ((p.slots i).own p.opened).become a) rfl hwork,
        Slot.rank_of_state hs hwork]
      change a.rank p.accepting + 1 ≤ _
      rcases ha with ⟨rfl, hlife⟩ | ⟨rfl, hlife⟩
      · rw [Pool.accepting_of hlife]
        decide
      · rw [Pool.not_accepting hlife]
        decide
    · rw [hm]
      exact iff_of_false (fun he => by cases he) (fun he => by cases he)
  | @connectFailed i hm =>
    obtain ⟨hi, hs, hown⟩ := hc.of_connect hm
    have hrank := rank_become hc hi (hs ▸ by decide) .closed
    refine rank_slot (s := (p.slots i).become .closed) hi ?_ rfl rfl rfl ?_ rfl rfl
    · rw [hrank.1, hrank.2, hs]
      cases p.accepting <;> decide
    · rw [hm]
      exact iff_of_false (fun he => by cases he) (fun he => by cases he)
  | databaseClosed result released hm hlife =>
    have hd : p.databaseRank = 1 := by
      rw [Pool.databaseRank, hlife, hm]
      rfl
    have hstopping := Pool.not_accepting (p := p) (by rw [hlife]; decide)
    rw [Pool.rank, Pool.rank, Pool.slotRank, Pool.slotRank, Bool.toNat_true, hd, hstopping]
    change (∑ j ∈ Finset.range p.connections, (p.slots j).rank false) + 10 * p.queue.length + 0 +
      0 + 10 * p.admitted + 1 ≤ (∑ j ∈ Finset.range p.connections, (p.slots j).rank false) +
        10 * p.queue.length + 0 + 1 + 10 * p.admitted
    omega
  -- a slot that must be closed may be worth six more; the pool gives six a slot for it
  | beginStop hlife =>
    have haccepting := Pool.accepting_of hlife
    have hsum : p.beginStop.slotRank ≤ p.slotRank + 6 * p.connections := by
      rw [Pool.slotRank, Pool.slotRank, haccepting]
      change ∑ j ∈ Finset.range p.connections, (p.slots j).rank false ≤ _
      refine (Finset.sum_le_sum fun j _ => Slot.rank_stopping (p.slots j)).trans ?_
      rw [Finset.sum_add_distrib, Finset.sum_const, Finset.card_range, Nat.mul_comm]
      exact le_rfl
    have hd : p.beginStop.databaseRank = p.databaseRank := by
      rw [Pool.databaseRank, Pool.databaseRank, hlife]
      rfl
    rw [Pool.rank, Pool.rank, haccepting, hd, Bool.toNat_false]
    change _ + 10 * p.queue.length + 0 + _ + 10 * p.admitted + 0 ≤
      _ + 6 * p.connections + _ + 10 * p.admitted
    omega
  | slotFailure i f =>
    have hrank := rank_queue (p := p) (t := p.modifySlot i (Slot.addFailure f)) rfl rfl
      (fun j => ?_)
      .rfl
    · have hqueue : (p.modifySlot i (Slot.addFailure f)).queue = p.queue := rfl
      have hadmitted : (p.modifySlot i (Slot.addFailure f)).admitted = p.admitted := rfl
      rw [hqueue] at hrank
      rw [hadmitted, Bool.toNat_false]
      omega
    · by_cases hj : j = i
      · rw [hj, Pool.slots_modifySlot_self]
        rfl
      · rw [Pool.slots_modifySlot_of_ne hj]
  | latch | cleanup | poolFailure => exact le_rfl

theorem Changes.rank_le (h : Changes p t) :
    t.rank + 10 * p.admitted ≤ p.rank + 10 * t.admitted := by
  induction h with
  | refl => exact le_rfl
  | tail _ hmove ih =>
    obtain ⟨hc, b, hchange⟩ := hmove
    have hlast := hchange.rank_le hc
    omega

theorem Completes.rank_lt (h : Completes p t) :
    t.rank + 10 * p.admitted + 1 ≤ p.rank + 10 * t.admitted := by
  obtain ⟨u, v, hbefore, hc, hchange, hafter⟩ := h
  have hfirst := hbefore.rank_le
  have hstep := hchange.rank_le hc
  have hlast := hafter.rank_le
  rw [Bool.toNat_true] at hstep
  omega

theorem Change.connections_eq (h : Change p b t) : t.connections = p.connections := by
  cases h <;> rfl

theorem Changes.connections_eq (h : Changes p t) : t.connections = p.connections := by
  induction h with
  | refl => rfl
  | tail _ hmove ih =>
    obtain ⟨-, b, hchange⟩ := hmove
    exact hchange.connections_eq.trans ih

/-! ### Pools in which no helper has anything to complete -/

/-- No helper has anything to complete. -/
def Pool.Quiet (p : Pool X V) : Prop :=
  ∀ l : Label X V, l.completes = true → (system X V).step (some p) l = none

theorem Pool.Quiet.work (h : p.Quiet) (hi : i < p.connections) : (p.slots i).work = none := by
  have hat : p.workAt i = (p.slots i).work := if_pos hi
  cases hw : (p.slots i).work with
  | none => rfl
  | some w =>
    rw [hw] at hat
    obtain ⟨r, operation, c, stage⟩ := w
    cases stage with
    | waiting =>
      have hnone : handle p (.enter i) = none := h (.enter i) rfl
      rw [handle, hat] at hnone
      cases hnone
    | running =>
      have hnone : handle p (.leave i (.error ⟨.database, .closed⟩)) = none :=
        h (.leave i (.error ⟨.database, .closed⟩)) rfl
      rw [handle, hat] at hnone
      cases hnone
    | ended result =>
      have hnone : handle p (.settle i) = none := h (.settle i) rfl
      rw [handle, hat] at hnone
      cases hnone

theorem Pool.Quiet.maintenance (h : p.Quiet) : p.maintenance = none := by
  cases hm : p.maintenance with
  | none => rfl
  | some job =>
    cases job with
    | closeSlot i c =>
      have hnone : handle p (.slotClosed (.ok ())) = none := h (.slotClosed (.ok ())) rfl
      rw [handle, hm] at hnone
      cases hnone
    | connect i =>
      have hnone : handle p (.slotConnected (.ok ())) = none := h (.slotConnected (.ok ())) rfl
      rw [handle, hm] at hnone
      cases hnone
    | closeDatabase =>
      have hnone : handle p (.databaseClosed (.ok ()) (.ok ())) = none :=
        h (.databaseClosed (.ok ()) (.ok ())) rfl
      rw [handle, hm] at hnone
      cases hnone

/-- Every slot is done when no helper has anything to complete. -/
theorem Pool.Quiet.done (h : p.Quiet) (hp : Steady p) (hi : i < p.connections) :
    (p.slots i).state.done = true := by
  have hm := h.maintenance
  have hb : p.maintenanceBusy = false := by rw [hp.mid.core.busy, hm]; rfl
  have hneeds := hp.pumped.slots hb i hi
  have hok := hp.mid.core.slot i hi
  cases hs : (p.slots i).state with
  | idle | closed | closeFailed => rfl
  | leased =>
    obtain ⟨w, hw, -⟩ := hok.leased hs
    cases (h.work hi).symm.trans hw
  | needsClose | needsConnect =>
    rw [hs] at hneeds
    cases hneeds
  | closing =>
    obtain ⟨c, -, he⟩ := hok.closing hs
    cases hm.symm.trans he
  | connecting => cases hm.symm.trans (hok.connecting hs)

theorem SlotState.idle_of_done {a : SlotState} (hdone : a.done = true) (hover : a.over = false) :
    a = .idle := by
  revert hdone hover
  cases a <;> decide

/-- **A pool in which no helper has anything to complete** has finished every request, and is not
in the middle of its end. -/
theorem Pool.Quiet.finished (h : p.Quiet) (hp : Steady p) (hn : 0 < p.connections) :
    (∀ r < p.admitted, (p.requests r).result.isSome = true) ∧
      (p.lifecycle = .accepting ∨ p.lifecycle = .stopped ∧ p.shutdownResult.isSome = true) := by
  have hm := h.maintenance
  have hb : p.maintenanceBusy = false := by rw [hp.mid.core.busy, hm]; rfl
  -- in an accepting pool nobody waits for an idle slot; in a pool that stops nobody waits
  have hqueue : p.queue = [] := by
    by_cases hlife : p.lifecycle = .accepting
    · by_contra hne
      exact hp.fed hne 0 hn (SlotState.idle_of_done (h.done hp hn) (hp.alive hlife 0 hn))
    · exact (hp.mid.halted hlife).1
  refine ⟨fun r hr => ?_, ?_⟩
  · have hplaced := hp.mid.core.placed r hr nofun
    cases hs : (p.requests r).state with
    -- neither waiting nor leased, so that the request is finished
    | queued =>
      have hq := hplaced.queued hs
      rw [hqueue] at hq
      cases hq
    | dispatched | settling =>
      obtain ⟨i, hi, hl⟩ := hplaced.leased (by rw [hs]; decide)
      cases hl.symm.trans (hp.released i hi (h.done hp hi))
    | finished => exact hplaced.finished.mp hs
  · cases hlife : p.lifecycle with
    | accepting => exact .inl rfl
    -- some slot is not over, and then it is idle; but a pool that stops has no idle slot
    | stopping =>
      obtain ⟨i, hi, ho⟩ := hp.pumped.database hb hlife
      exact absurd (SlotState.idle_of_done (h.done hp hi) ho)
        ((hp.mid.halted (by rw [hlife]; decide)).2 i hi).1
    | stopped => exact .inr ⟨rfl, hp.mid.result.mpr hlife⟩

/-- **Every run of the helpers ends, with all results there**: the completions of a run are bounded
by its admissions, and when no helper has anything to complete every request has been finished,
and a pool that stops has stopped. -/
theorem settles {G : Guard (Option (Pool X V)) (Label X V)} {n capacity : ℕ} (hn : 0 < n)
    {ls : List (Label X V)}
    (hrun : (system X V).Run G (some (created n capacity)) ls (some t)) :
    ls.countP Label.completes ≤ 10 * t.admitted + 6 * n + 2 ∧
      ((∀ l : Label X V, l.completes = true → (system X V).step (some t) l = none) →
        (∀ r < t.admitted, (t.requests r).result.isSome = true) ∧
          (t.lifecycle = .accepting ∨
            t.lifecycle = .stopped ∧ t.shutdownResult.isSome = true)) := by
  have hcreated : Sound (created n capacity : Pool X V) :=
    ⟨steady_created n capacity, recorded_created n capacity⟩
  obtain ⟨u, hu, hsound, hchanges⟩ := changes_of_run hcreated rfl hrun
  cases hu
  refine ⟨?_, fun hquiet => Pool.Quiet.finished hquiet hsound.steady ?_⟩
  · -- each admission pays for the steps that complete its request
    have hrank := hrun.rank_le (fun s => ∃ p, s = some p ∧ Sound p) (fun s => s.elim 0 Pool.rank)
      (fun s => s.elim 0 fun p => 10 * p.admitted) Label.completes ?_ ?_ ⟨_, rfl, hcreated⟩
    · have hle : (created n capacity : Pool X V).rank = 6 * n + 2 := by
        have hsum : (created n capacity : Pool X V).slotRank = 0 :=
          Finset.sum_eq_zero fun _ _ => rfl
        rw [Pool.rank, hsum]
        change 0 + 10 * 0 + 6 * n + 2 = _
        omega
      change t.rank + 0 + _ ≤ (created n capacity).rank + 10 * t.admitted at hrank
      omega
    · rintro s l v ⟨p, rfl, hp⟩ - hs
      obtain ⟨q, hq, hsound, -⟩ := hp.step hs
      exact ⟨q, hq, hsound⟩
    · rintro s l v ⟨p, rfl, hp⟩ - hs
      obtain ⟨q, rfl, -, hchanges, hcompletes⟩ := hp.step hs
      change q.rank + 10 * p.admitted + _ ≤ p.rank + 10 * q.admitted
      cases hl : l.completes with
      | false => exact hchanges.rank_le
      | true => exact (hcompletes hl).rank_lt
  · rw [hchanges.connections_eq]
    exact hn

theorem settles_sampleEnd :
    (sampleStart ++ sampleEnd).countP Label.completes ≤ 10 * 3 + 6 * 1 + 2 :=
  (settles Nat.one_pos run_sampleEnd).1

end DuckdbMl.AsyncPool
