import DuckdbMl.AsyncPool.Handlers
import Mathlib.Logic.Relation

/-!
# The changes that handlers are made of

A handler makes several changes to the pool, one after another. Each of them is stated with what
the code has checked, or knows, at that point; what every change keeps, every handler keeps.

## Main definitions

* `Change p completes t`: one change, from `p` to `t`; `completes` tells whether it is what a helper
  has done
-/

namespace DuckdbMl.AsyncPool

open Pool.Async (Answer combine)

variable {X V : Type}

/-- A slot whose request has its result. -/
def SlotState.done : SlotState → Bool
  | .idle | .closed | .closeFailed => true
  | .leased | .needsClose | .closing | .needsConnect | .connecting => false

namespace Pool

/-- The request `r` is given to the slot `i`, whose connection is `c`. -/
def given (i r c : ℕ) (operation : Operation) (p : Pool X V) : Pool X V :=
  ((p.modifySlot i (Slot.give r c operation)).modifyRequest r Request.dispatch).record
    (.dispatched r c)

def finished (r : ℕ) (result : Result X V) (p : Pool X V) : Pool X V :=
  (p.modifyRequest r (Request.finish result)).record (.finished r)

/-- The work of the slot `i` is at `stage`, and its request at `execution`. -/
def reach (i r : ℕ) (stage : Stage X V) (execution : Execution) (p : Pool X V) : Pool X V :=
  (p.modifySlot i (Slot.reach stage)).modifyRequest r (Request.execution execution)

/-- The request of the slot `i` is settling, and the slot in the state `a`. -/
def settling (i : ℕ) (w : Work X V) (result : Result X V) (a : SlotState) (p : Pool X V) :
    Pool X V :=
  ((p.modifySlot i Slot.finishWork).modifyRequest w.request
    (Request.settle result)).modifySlot i (Slot.become a)

end Pool

/-- **A change to the pool**, with what is known when it is made. -/
inductive Change (p : Pool X V) : Bool → Pool X V → Prop
  | join (operation : Operation) (hlife : p.lifecycle = .accepting)
      (hroom : p.queue.length < p.queueCapacity) :
    Change p false ((p.addRequest operation).insertLast p.admitted)
  | serveNew {i c : ℕ} (operation : Operation) (hi : i < p.connections)
      (hs : (p.slots i).state = .idle) (hl : (p.slots i).lease = none)
      (hc : (p.slots i).owner = some c) (hq : p.queue = []) :
    Change p false ((p.addRequest operation).given i p.admitted c operation)
  | serve {i c r : ℕ} {rest : List ℕ} (operation : Operation) (hi : i < p.connections)
      (hs : (p.slots i).state = .idle) (hl : (p.slots i).lease = none)
      (hc : (p.slots i).owner = some c) (hq : p.queue = r :: rest) :
    Change p false ((p.removeFirst r rest).given i r c operation)
  | withdraw {r : ℕ} (hr : r ∈ p.queue) :
    Change p false ((latch r (p.removeFirst r (p.queue.erase r))).finished r
      (.error (.expected .cancelled)))
  | refuse {r : ℕ} {rest : List ℕ} (hq : p.queue = r :: rest) :
    Change p false ((p.removeFirst r rest).finished r (.error (.expected .poolShutdown)))
  | latch {i r : ℕ} (hi : i < p.connections) (hl : (p.slots i).lease = some r)
      (hs : (p.slots i).state ≠ .idle) : Change p false (latch r p)
  | enter {i : ℕ} {w : Work X V} (hi : i < p.connections) (hw : (p.slots i).work = some w)
      (ha : w.stage = .waiting) (hg : (p.requests w.request).gate.cancelled = false) :
    Change p true ((p.reach i w.request .running .executing).record (.entered w.request w.owner))
  | bypass {i : ℕ} {w : Work X V} (hi : i < p.connections) (hw : (p.slots i).work = some w)
      (ha : w.stage = .waiting) (hg : (p.requests w.request).gate.cancelled = true) :
    Change p true (p.reach i w.request (.ended (.error (.expected .cancelled))) .returned)
  | leave {i : ℕ} {w : Work X V} (result : Result X V) (hi : i < p.connections)
      (hw : (p.slots i).work = some w) (ha : w.stage = .running) :
    Change p true (p.reach i w.request (.ended result) .returned)
  | abandon {i : ℕ} {w : Work X V} (x : X) (hi : i < p.connections)
      (hw : (p.slots i).work = some w) (ha : w.stage = .waiting) :
    Change p true (p.modifySlot i (Slot.reach (.ended (.error (.raised x)))))
  | settle {i : ℕ} {w : Work X V} {result : Result X V} {a : SlotState} (hi : i < p.connections)
      (hw : (p.slots i).work = some w) (hstage : w.stage = .ended result)
      (ha : a = .needsClose ∨ a = .idle ∧ (∃ v, result = .ok v) ∧
        (p.requests w.request).gate.cancelled = false ∧ p.lifecycle = .accepting) :
    Change p true (p.settling i w result a)
  | finishLease {i r : ℕ} {outcome : Result X V} (hi : i < p.connections)
      (hs : (p.slots i).state.done = true) (hl : (p.slots i).lease = some r)
      (ho : (p.requests r).outcome = some outcome) :
    Change p false ((p.modifySlot i Slot.release).finished r outcome)
  | cleanup {i r : ℕ} {outcome : Result X V} (result : Answer Error X) (hi : i < p.connections)
      (hs : (p.slots i).state = .closing ∨ (p.slots i).state = .connecting)
      (hl : (p.slots i).lease = some r) (ho : (p.requests r).outcome = some outcome) :
    Change p false (p.modifyRequest r (Request.addCleanup result outcome))
  | drain {i : ℕ} (hi : i < p.connections) (hs : (p.slots i).state = .idle)
      (hlife : p.lifecycle = .stopping) : Change p false (p.modifySlot i (Slot.become .needsClose))
  | skip {i : ℕ} (hi : i < p.connections) (hs : (p.slots i).state = .needsConnect)
      (hlife : p.lifecycle = .stopping) : Change p false (p.modifySlot i (Slot.become .closed))
  | startClose {i c : ℕ} (hi : i < p.connections) (hs : (p.slots i).state = .needsClose)
      (hc : (p.slots i).owner = some c) (hm : p.maintenance = none) :
    Change p false
      (((p.modifySlot i (Slot.become .closing)).start (.closeSlot i c)).record (.closing c))
  | startConnect {i : ℕ} (hi : i < p.connections) (hs : (p.slots i).state = .needsConnect)
      (hm : p.maintenance = none) :
    Change p false ((p.modifySlot i (Slot.become .connecting)).start (.connect i))
  | startDatabase (hlife : p.lifecycle = .stopping)
      (hover : ∀ i < p.connections, (p.slots i).state.over = true) (hm : p.maintenance = none) :
    Change p false ((p.start .closeDatabase).record .closingDatabase)
  | closed {i c : ℕ} {a : SlotState} (hm : p.maintenance = some (.closeSlot i c))
      (ha : a = .needsConnect ∧ p.lifecycle = .accepting ∨
        a = .closed ∧ p.lifecycle ≠ .accepting) :
    Change p true (((p.finishMaintenance.record (.closed c)).modifySlot i Slot.disown).modifySlot i
      (Slot.become a))
  | closeFailed {i c : ℕ} (hm : p.maintenance = some (.closeSlot i c)) :
    Change p true ((p.finishMaintenance.record (.closed c)).modifySlot i (Slot.become .closeFailed))
  | connected {i : ℕ} {a : SlotState} (hm : p.maintenance = some (.connect i))
      (ha : a = .idle ∧ p.lifecycle = .accepting ∨ a = .needsClose ∧ p.lifecycle ≠ .accepting) :
    Change p true ((p.finishMaintenance.connect i).modifySlot i (Slot.become a))
  | connectFailed {i : ℕ} (hm : p.maintenance = some (.connect i)) :
    Change p true (p.finishMaintenance.modifySlot i (Slot.become .closed))
  | databaseClosed (result released : Answer Error X) (hm : p.maintenance = some .closeDatabase)
      (hlife : p.lifecycle = .stopping) :
    Change p true { p.finishMaintenance.collect result released with
      shutdownResult := some (p.finishMaintenance.collect result released).lifecycleResult }
  | beginStop (hlife : p.lifecycle = .accepting) : Change p false p.beginStop
  | poolFailure (f : Failure X) : Change p false (p.addFailure f)
  | slotFailure (i : ℕ) (f : Failure X) : Change p false (p.modifySlot i (Slot.addFailure f))

end DuckdbMl.AsyncPool
