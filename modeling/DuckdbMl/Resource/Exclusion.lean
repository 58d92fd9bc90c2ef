import DuckdbMl.Resource.Knowledge

/-!
# Exclusion on a connection

At most one party is between entry to and exit from native work on a connection, and while a
request holds the connection that party is the request's. What excludes the others differs: `busy`,
the transaction lease during BEGIN and the settlement, the request lease during installation and
detachment, and after a discard the gate that is closed. The argument is thread-modular again, on
top of what the parties know.

## Main definitions

* `Patient`, `Orderly`: the conditions on the steps
* `SharedGate`, `Party.Holds`, `Leaves`: the invariant, and what a step leaves the others of it
* `Party.native`: the positions inside native work
* `Exclusion`: what holds of a connection

## Main results

* `holds_of_reachable`, `exclusion_of_reachable`: exclusion in every orderly run
-/

set_option linter.unusedSectionVars false

namespace DuckdbMl.Resource

open Transition

variable {A K : Type} [DecidableEq A] [DecidableEq K]

/-- No operation that has discarded the connection is still running when `force_close_child`
claims it or a request's cleanup goes on to settle. -/
def Patient (w : World (Owner A K) A (Party A)) (l : A × Act A K) : Prop :=
  (∃ c, w.parties l.1 = .force c .waiting) ∨ (∃ request, w.parties l.1 = .bridge request .waiting) →
    w.shared.overrun = none

/-- The shared invariant of exclusion. -/
structure SharedGate (o : Owner A K) : Prop where
  overrun : ∀ a, o.overrun = some a → o.handle = false ∧ o.state = .closed ∧ o.busy = false
  idle : o.holder = none → o.busy = false
  connected : o.handle = true → o.disconnects = 0
  once : o.disconnects ≤ 1

/-- No party works on the connection. -/
def Owner.vacant (o : Owner A K) : Prop := o.busy = false ∧ o.overrun = none

def Operation.Holds (a : A) (o : Owner A K) (op : Operation A) : OpPc A → Prop
  | .read | .enter _ => True
  | .linger => o.overrun = some a ∧ o.requestLease = op.request o
  | _ => o.holder = some a ∧ o.requestLease = op.request o

def Force.Holds (a : A) (o : Owner A K) (c : ℕ) : ForcePc → Prop
  | .waiting => c < o.next
  | .destroying | .finishing =>
    c < o.next ∧ o.holder = some a ∧
      ∀ r, o.requestLease = some r → (o.children c).request = some r

def Tx.Holds (a : A) (o : Owner A K) (request : Option A) : TxPc → Prop
  | .final => True
  | .wrecking _ => o.holder = some a ∧ o.requestLease = request
  | _ => o.lease = some a ∧ o.requestLease = request

def Bridge.Holds (a : A) (o : Owner A K) : BridgePc → Prop
  | .install | .destroying _ | .detach => o.vacant ∧ o.lease = none
  | .wrecking _ => o.holder = some a ∧ o.lease = none
  | .finish installed => installed = true → o.requests a = .settling ∧ o.vacant ∧ o.lease = none
  | _ => True

def Close.Holds (a : A) (o : Owner A K) : ClosePc → Prop
  | .waiting => True
  | .wrecking _ => o.holder = some a ∧ o.requestLease = none

/-- **What a party holds at its position.** -/
def Party.Holds (a : A) (o : Owner A K) : Party A → Prop
  | .out => True
  | .op job pc => job.Holds a o pc
  | .force c pc => Force.Holds a o c pc
  | .transaction request pc => Tx.Holds a o request pc
  | .bridge _ pc => Bridge.Holds a o pc
  | .close pc => Close.Holds a o pc

/-- What a step of another party leaves the party `b` of what it holds. -/
structure Leaves (b : A) (o o' : Owner A K) : Prop where
  holder : o.holder = some b → o'.holder = some b ∧ o'.requestLease = o.requestLease
  overrun : o.overrun = some b → o'.overrun = some b ∧ o'.requestLease = o.requestLease
  lease : o.lease = some b → o'.requestLease = o.requestLease
  wreck : o.holder = some b → o.lease = none → o'.lease = none
  still : o.requestLease = some b → o.requests b ≠ .running → o.vacant → o.lease = none →
    o'.vacant ∧ o'.lease = none

theorem Owner.SameGate.leaves {o o' : Owner A K} (h : o.SameGate o') (b : A) : Leaves b o o' := by
  obtain ⟨-, busy, lease, requestLease, -, -, -, -, -, holder, overrun, -, -, -⟩ := h
  constructor <;> simp_all [Owner.vacant]

theorem Operation.Move.leaves {o o' : Owner A K} {op : Operation A} {pc : OpPc A} {act : Act A K}
    {r : Option (OpPc A)} {a b : A} (h : op.Move a o pc act o' r) (hb : b ≠ a)
    (hs : Shared o) (hg : SharedGate o) (hk : op.Knows a o pc) (hh : op.Holds a o pc) :
    Leaves b o o' := by
  have same : Leaves b o o := Owner.SameGate.refl.leaves b
  cases h
  -- the party takes the connection only when nobody has it
  case enter tx hl ho hbusy hm _ =>
    constructor <;> simp only [Owner.claimBusy, Owner.vacant] <;> grind [Shared, SharedGate, Owner.Open]
  case release => exact Owner.sameGate_releaseResult.leaves b
  case publishLent => exact Owner.sameGate_reserveResult.leaves b
  case wreck hw => exact (Wreck.sameGate hw).leaves b
  case wrecked hw =>
    rw [Wreck.closed hw]
    constructor <;> simp only [Owner.closeNative, Owner.vacant] <;>
      grind [Shared, SharedGate, Operation.Holds]
  -- and gives back only what it holds itself
  case finish =>
    constructor <;> simp only [Owner.finishOperation, Owner.vacant] <;>
      grind [Shared, SharedGate, Operation.Holds]
  case linger =>
    constructor <;> simp only [Owner.finishOperation, Owner.vacant] <;>
      grind [Shared, SharedGate, Operation.Holds]
  all_goals first
    | exact same
    | (constructor <;>
        simp_all [Owner.vacant, Owner.setSession, Owner.reserveResult, Owner.registerChild])

theorem Force.Move.leaves {o o' : Owner A K} {c : ℕ} {pc : ForcePc} {act : Act A K}
    {r : Option ForcePc} {a b : A} (h : Force.Move a o c pc act o' r) (hb : b ≠ a)
    (hs : Shared o) (hh : Force.Holds a o c pc)
    (hc : pc = .waiting → ∀ x, o.requestLease = some x → o.requests x = .running) :
    Leaves b o o' := by
  cases h
  case claim hbusy hl _ =>
    constructor <;> simp only [Owner.claimBusy, Owner.vacant] <;> grind [Shared]
  case gone => exact Owner.SameGate.refl.leaves b
  case destroy => exact Owner.sameGate_destroyChild.leaves b
  case finish =>
    constructor <;> simp only [Owner.finishOperation, Owner.vacant] <;>
      grind [Shared, SharedGate, Force.Holds]

theorem Tx.Move.leaves {o o' : Owner A K} {request : Option A} {pc : TxPc} {act : Act A K}
    {r : Option TxPc} {a b : A} (h : Tx.Move a o pc act o' r) (hb : b ≠ a)
    (hs : Shared o) (hk : Tx.Knows a o pc) (hh : Tx.Holds a o request pc) : Leaves b o o' := by
  have same : Leaves b o o := Owner.SameGate.refl.leaves b
  cases h
  case destroy => exact Owner.sameGate_destroyChild.leaves b
  case discard =>
    have hk : o.lease = some a ∧ o.tokens a = .revoked ∧ o.busy = false := hk
    constructor <;> simp only [Owner.beginDiscard, Owner.vacant] <;> grind [Shared]
  case release => constructor <;> simp_all [Owner.vacant, Tx.releaseLease]
  case wreck hw => exact (Wreck.sameGate hw).leaves b
  case wrecked hw =>
    rw [Wreck.closed hw]
    constructor <;> simp only [Owner.closeNative, Owner.vacant] <;> grind [Shared, SharedGate, Tx.Holds]
  case final => constructor <;> simp_all [Owner.vacant, Tx.releaseLease]
  all_goals first
    | exact same
    | (constructor <;> simp_all [Owner.vacant, Owner.setSession, Tx.setToken])

theorem Bridge.Move.leaves {o o' : Owner A K} {request : Option A} {pc : BridgePc} {act : Act A K}
    {r : Option BridgePc} {a b : A} (h : Bridge.Move a o request pc act o' r) (hb : b ≠ a)
    (hs : Shared o) (hg : SharedGate o) (hk : Bridge.Knows a o pc) (hh : Bridge.Holds a o pc) :
    Leaves b o o' := by
  have same : Leaves b o o := Owner.SameGate.refl.leaves b
  cases h
  case admitRequest ho hu _ =>
    have hu := Owner.unleased_eq_true.mp hu
    constructor <;> simp only [Owner.vacant] <;> grind [Shared, SharedGate, Owner.Open]
  case destroy => exact Owner.sameGate_destroyChild.leaves b
  case discard =>
    constructor <;> simp only [Owner.beginDiscard, Owner.vacant] <;>
      grind [Shared, Bridge.Holds, Owner.vacant, Bridge.Knows, Bridge.Still]
  case wreck hw => exact (Wreck.sameGate hw).leaves b
  case wrecked hw =>
    rw [Wreck.closed hw]
    constructor <;> simp only [Owner.closeNative, Owner.vacant] <;>
      grind [Shared, SharedGate, Bridge.Holds]
  case finish =>
    obtain ⟨-, ⟨hbusy, ho⟩, hl⟩ := hh rfl
    constructor <;> simp only [Bridge.releaseRequest, Bridge.setRequest, Owner.vacant] <;>
      grind [Shared]
  all_goals first | exact same | (constructor <;> simp_all [Owner.vacant, Bridge.setRequest])

theorem Close.Move.leaves {o o' : Owner A K} {pc : ClosePc} {act : Act A K}
    {r : Option ClosePc} {a b : A} (h : Close.Move a o pc act o' r) (hb : b ≠ a)
    (hs : Shared o) (hh : Close.Holds a o pc) : Leaves b o o' := by
  cases h
  case claim hq _ =>
    simp only [Owner.quiescent, Bool.and_eq_true, Bool.not_eq_true', Option.isNone_iff_eq_none] at hq
    constructor <;> simp only [Owner.claimBusy, Owner.vacant] <;> grind [Shared]
  case gone => exact Owner.SameGate.refl.leaves b
  case wreck hw => exact (Wreck.sameGate hw).leaves b
  case wrecked hw =>
    rw [Wreck.closed hw]
    constructor <;> simp only [Owner.closeNative, Owner.vacant] <;>
      grind [Shared, SharedGate, Close.Holds]

theorem Party.Starts.leaves {capacity : ℕ} {o o' : Owner A K} {act : Act A K} {p : Party A} {a b : A}
    (h : Party.Starts capacity a o act o' p) (hs : Shared o) : Leaves b o o' := by
  have same : Leaves b o o := Owner.SameGate.refl.leaves b
  cases h
  case force =>
    refine Owner.SameGate.leaves ?_ b
    exact Owner.sameGate_setChild fun _ => ⟨rfl, rfl⟩
  case begin hu ho hbusy hl _ =>
    constructor <;> simp only [Owner.vacant] <;> grind [Shared, Owner.Open]
  case close ho hu _ =>
    have hu := Owner.unleased_eq_true.mp hu
    constructor <;> simp only [Owner.claimBusy, Owner.vacant] <;> grind [Shared]
  case cacheFind => exact Owner.sameGate_cacheFind.leaves b
  case cacheAdd => exact Owner.sameGate_cacheAdd.leaves b
  case cacheRemove => exact Owner.sameGate_cacheRemove.leaves b
  all_goals first
    | exact same
    | (constructor <;>
        simp_all [Owner.vacant, Bridge.setRequest, Owner.lendChild, Owner.setChild])

/-! ## The shared invariant -/

section shared

variable {o o' : Owner A K} {a : A}

theorem Owner.SameGate.sharedGate (h : o.SameGate o') (hg : SharedGate o) : SharedGate o' := by
  obtain ⟨state, busy, -, -, -, -, -, handle, disconnects, holder, overrun, -, -, -⟩ := h
  constructor
  · rw [overrun, handle, state, busy]
    exact hg.overrun
  · rw [holder, busy]
    exact hg.idle
  · rw [handle, disconnects]
    exact hg.connected
  · rw [disconnects]
    exact hg.once

theorem Owner.claimBusy_sharedGate (hg : SharedGate o) (ho : o.overrun = none) :
    SharedGate (o.claimBusy a) := by
  constructor <;> simp only [Owner.claimBusy] <;> grind [SharedGate]

theorem SharedGate.overrun_eq_none (hg : SharedGate o)
    (h : o.state ≠ .closed ∨ o.busy = true ∨ o.handle = true) : o.overrun = none := by
  cases ho : o.overrun with
  | none => rfl
  | some a =>
    obtain ⟨hd, hc, hb⟩ := hg.overrun a ho
    simp [hd, hc, hb] at h

theorem SharedGate.not_overrun (hg : SharedGate o) (h : o.state ≠ .closed) : o.overrun = none :=
  hg.overrun_eq_none (.inl h)

theorem Owner.finishOperation_sharedGate (hg : SharedGate o) : SharedGate o.finishOperation := by
  constructor <;> simp only [Owner.finishOperation] <;> grind [SharedGate]

theorem Owner.closeNative_sharedGate (hg : SharedGate o) : SharedGate o.closeNative := by
  constructor <;> simp only [Owner.closeNative] <;> grind [SharedGate]

theorem Owner.beginDiscard_sharedGate (hg : SharedGate o) (ho : o.overrun = none) :
    SharedGate (o.beginDiscard a) := by
  constructor <;> simp only [Owner.beginDiscard] <;> grind [SharedGate]

theorem Owner.closing_sharedGate (hg : SharedGate o) (ho : o.overrun = none) :
    SharedGate { o with state := .closing } := by
  constructor <;> grind [SharedGate]

theorem Owner.setSession_sharedGate {s : Option (Session A)} (hg : SharedGate o) :
    SharedGate (o.setSession s) := ⟨hg.overrun, hg.idle, hg.connected, hg.once⟩

theorem Operation.Move.sharedGate {op : Operation A} {pc : OpPc A} {act : Act A K}
    {r : Option (OpPc A)} (h : op.Move a o pc act o' r) (hg : SharedGate o) : SharedGate o' := by
  cases h
  case enter tx hl ho hbusy hm _ =>
    exact Owner.claimBusy_sharedGate hg (hg.not_overrun (by simp [ho.1]))
  case release => exact Owner.sameGate_releaseResult.sharedGate hg
  case publishOwn =>
    exact Owner.sameGate_reserveResult.sharedGate (Owner.setSession_sharedGate hg)
  case publishLent => exact Owner.sameGate_reserveResult.sharedGate hg
  case wreck hw => exact (Wreck.sameGate hw).sharedGate hg
  case wrecked hw =>
    rw [Wreck.closed hw]
    have hc := Owner.closeNative_sharedGate hg
    exact ⟨fun _ _ => ⟨rfl, rfl, rfl⟩, hc.idle, hc.connected, hc.once⟩
  case finish => exact Owner.finishOperation_sharedGate hg
  case linger =>
    have hc := Owner.finishOperation_sharedGate hg
    refine ⟨fun _ h => ?_, hc.idle, hc.connected, hc.once⟩
    cases h
  all_goals exact ⟨hg.overrun, hg.idle, hg.connected, hg.once⟩

theorem Force.Move.sharedGate {c : ℕ} {pc : ForcePc} {act : Act A K} {r : Option ForcePc}
    (h : Force.Move a o c pc act o' r) (hg : SharedGate o)
    (hp : pc = .waiting → o.overrun = none) : SharedGate o' := by
  cases h
  case claim => exact Owner.claimBusy_sharedGate hg (hp rfl)
  case gone => exact hg
  case destroy => exact Owner.sameGate_destroyChild.sharedGate hg
  case finish => exact Owner.finishOperation_sharedGate hg

theorem Tx.Move.sharedGate {pc : TxPc} {act : Act A K} {r : Option TxPc}
    (h : Tx.Move a o pc act o' r) (hs : Shared o) (hg : SharedGate o) (hk : Tx.Knows a o pc) :
    SharedGate o' := by
  cases h
  case destroy => exact Owner.sameGate_destroyChild.sharedGate hg
  case discard =>
    have hl : o.lease = some a := hk.1
    have live : o.handle = true := by
      by_contra hd
      simp [(hs.dead (by simpa using hd)).2] at hl
    exact Owner.beginDiscard_sharedGate hg (hg.overrun_eq_none (.inr (.inr live)))
  case wreck hw => exact (Wreck.sameGate hw).sharedGate hg
  case wrecked hw =>
    rw [Wreck.closed hw]
    exact Owner.closeNative_sharedGate hg
  all_goals exact ⟨hg.overrun, hg.idle, hg.connected, hg.once⟩

theorem Bridge.Move.sharedGate {request : Option A} {pc : BridgePc} {act : Act A K}
    {r : Option BridgePc} (h : Bridge.Move a o request pc act o' r) (hg : SharedGate o)
    (hh : Bridge.Holds a o pc) : SharedGate o' := by
  cases h
  case destroy => exact Owner.sameGate_destroyChild.sharedGate hg
  case discard => exact Owner.beginDiscard_sharedGate hg hh.1.2
  case wreck hw => exact (Wreck.sameGate hw).sharedGate hg
  case wrecked hw =>
    rw [Wreck.closed hw]
    exact Owner.closeNative_sharedGate hg
  all_goals exact ⟨hg.overrun, hg.idle, hg.connected, hg.once⟩

theorem Close.Move.sharedGate {pc : ClosePc} {act : Act A K} {r : Option ClosePc}
    (h : Close.Move a o pc act o' r) (hg : SharedGate o) : SharedGate o' := by
  cases h
  case claim hc => exact Owner.claimBusy_sharedGate hg (hg.not_overrun hc)
  case gone => exact hg
  case wreck hw => exact (Wreck.sameGate hw).sharedGate hg
  case wrecked hw =>
    rw [Wreck.closed hw]
    exact Owner.closeNative_sharedGate hg

theorem Party.Starts.sharedGate {capacity : ℕ} {act : Act A K} {p : Party A}
    (h : Party.Starts capacity a o act o' p) (hg : SharedGate o) : SharedGate o' := by
  cases h
  case force =>
    refine Owner.SameGate.sharedGate ?_ hg
    exact Owner.sameGate_setChild fun _ => ⟨rfl, rfl⟩
  case close ho _ _ =>
    have hn := hg.not_overrun (by simp [ho])
    exact Owner.closing_sharedGate (Owner.claimBusy_sharedGate hg hn) hn
  case forceClose ho => exact Owner.closing_sharedGate hg (hg.not_overrun ho)
  case revoke ho => exact Owner.closing_sharedGate hg (hg.not_overrun (by simp [ho]))
  case cacheFind => exact Owner.sameGate_cacheFind.sharedGate hg
  case cacheAdd => exact Owner.sameGate_cacheAdd.sharedGate hg
  case cacheRemove => exact Owner.sameGate_cacheRemove.sharedGate hg
  all_goals exact ⟨hg.overrun, hg.idle, hg.connected, hg.once⟩

end shared

/-! ## What the party that moves holds -/

section own

variable {o o' : Owner A K} {a : A}

theorem Owner.SameGate.request_eq (h : o.SameGate o') (op : Operation A) :
    op.request o' = op.request o := by
  cases op with
  | plain => rfl
  | child c _ => exact h.request c

theorem Operation.Move.holds {op : Operation A} {pc : OpPc A} {act : Act A K}
    {r : Option (OpPc A)} (h : op.Move a o pc act o' r) (hh : op.Holds a o pc) :
    r.elim True (op.Holds a o') := by
  have keep : o.holder = some a → o.requestLease = op.request o →
      ∀ {o'}, o.SameGate o' → o'.holder = some a ∧ o'.requestLease = op.request o' := by
    intro hh hr o' hg
    exact ⟨hg.holder.trans hh, by rw [hg.request_eq, hg.requestLease, hr]⟩
  cases h
  case read => trivial
  case enter tx hl ho hbusy hm _ =>
    refine ⟨rfl, ho.2.1.trans ?_⟩
    cases op <;> rfl
  case refuse => trivial
  case register request tx cached hop =>
    subst hop
    exact hh
  case release => exact keep hh.1 hh.2 Owner.sameGate_releaseResult
  case failOwn hpc => rcases hpc with rfl | rfl <;> exact hh
  case failLent hpc => rcases hpc with rfl | rfl <;> exact hh
  case publishLent => exact keep hh.1 hh.2 Owner.sameGate_reserveResult
  case wreck hw => exact keep hh.1 hh.2 (Wreck.sameGate hw)
  case wrecked hw =>
    rw [Wreck.closed hw]
    refine ⟨rfl, hh.2.trans ?_⟩
    cases op <;> rfl
  case finish => trivial
  case linger => trivial
  all_goals (refine ⟨hh.1, hh.2.trans ?_⟩; cases op <;> rfl)

theorem Force.Move.holds {c : ℕ} {pc : ForcePc} {act : Act A K} {r : Option ForcePc}
    (h : Force.Move a o c pc act o' r) (hh : Force.Holds a o c pc)
    (hc : pc = .waiting → ∀ x, o.requestLease = some x → (o.children c).request = some x) :
    r.elim True (Force.Holds a o' c) := by
  cases h
  case claim => exact ⟨hh, rfl, hc rfl⟩
  case gone => trivial
  case destroy =>
    have hg : o.SameGate (o.destroyChild c) := Owner.sameGate_destroyChild
    refine ⟨hg.next ▸ hh.1, hg.holder.trans hh.2.1, fun x hx => ?_⟩
    rw [hg.request]
    exact hh.2.2 x (hg.requestLease ▸ hx)
  case finish => trivial

theorem Tx.Move.holds {request : Option A} {pc : TxPc} {act : Act A K} {r : Option TxPc}
    (h : Tx.Move a o pc act o' r) (hk : Tx.Knows a o pc) (hh : Tx.Holds a o request pc) :
    r.elim True (Tx.Holds a o' request) := by
  cases h
  case destroy =>
    have hg : ∀ c, o.SameGate (o.destroyChild c) := fun c => Owner.sameGate_destroyChild
    exact ⟨(hg _).lease.trans hh.1, (hg _).requestLease.trans hh.2⟩
  case drained hpc => rcases hpc with rfl | rfl | rfl <;> exact hh
  case release => exact ⟨hk.2.2.1.1, hh.2⟩
  case wreck hw =>
    have hg := Wreck.sameGate hw
    exact ⟨hg.holder.trans hh.1, hg.requestLease.trans hh.2⟩
  case wrecked => trivial
  all_goals trivial

theorem Bridge.Move.holds {request : Option A} {pc : BridgePc} {act : Act A K}
    {r : Option BridgePc} (h : Bridge.Move a o request pc act o' r) (hs : Shared o)
    (hg : SharedGate o) (hk : Bridge.Knows a o pc) (hh : Bridge.Holds a o pc)
    (hp : pc = .waiting → o.overrun = none) : r.elim True (Bridge.Holds a o') := by
  cases h
  -- a request is admitted on a connection that nobody uses
  case admitRequest ho hu _ =>
    have hu := Owner.unleased_eq_true.mp hu
    exact ⟨⟨hu.1, hg.not_overrun (by simp [ho.1])⟩, hu.2.2.1⟩
  case refuse => exact fun h => by cases h
  case leave hpc => rcases hpc with rfl | rfl <;> trivial
  case settle hb hl => exact ⟨⟨hb, hp rfl⟩, hl⟩
  -- the destruction of a child leaves the gate as it is
  case destroy c cs =>
    have hd : o.SameGate (o.destroyChild c) := Owner.sameGate_destroyChild
    exact ⟨⟨hd.busy.trans hh.1.1, hd.overrun.trans hh.1.2⟩, hd.lease.trans hh.2⟩
  case destroyed => exact hh
  case detach => exact fun _ => ⟨hk.2.1, hh⟩
  case discard => exact ⟨rfl, hh.2⟩
  case wreck hw =>
    have hd := Wreck.sameGate hw
    exact ⟨hd.holder.trans hh.1, hd.lease.trans hh.2⟩
  case wrecked hw =>
    rw [Wreck.closed hw]
    have hb : o.busy = true := hs.holder a hh.1
    exact fun _ => ⟨hk.2.1, ⟨rfl, hg.overrun_eq_none (.inr (.inl hb))⟩, hh.2⟩
  all_goals trivial

theorem Close.Move.holds {pc : ClosePc} {act : Act A K} {r : Option ClosePc}
    (h : Close.Move a o pc act o' r) (hh : Close.Holds a o pc) :
    r.elim True (Close.Holds a o') := by
  cases h
  case claim hq _ =>
    simp only [Owner.quiescent, Bool.and_eq_true, Bool.not_eq_true', Option.isNone_iff_eq_none] at hq
    exact ⟨rfl, hq.2⟩
  case wreck hw =>
    have hg := Wreck.sameGate hw
    exact ⟨hg.holder.trans hh.1, hg.requestLease.trans hh.2⟩
  all_goals trivial

theorem Party.Starts.holds {capacity : ℕ} {act : Act A K} {p : Party A}
    (h : Party.Starts capacity a o act o' p) : p.Holds a o' := by
  cases h
  case force c hc _ => exact hc
  case begin ho _ _ _ => exact ⟨rfl, ho.2.1⟩
  case close ho hu _ => exact ⟨rfl, (Owner.unleased_eq_true.mp hu).2.1⟩
  all_goals trivial

end own

/-! ## What the others hold -/

section others

variable {o o' : Owner A K} {b : A}

theorem Operation.Holds.stable {op : Operation A} {pc : OpPc A} (hh : op.Holds b o pc)
    (h : Leaves b o o') (hr : op.request o' = op.request o) : op.Holds b o' pc := by
  have keep : o.holder = some b ∧ o.requestLease = op.request o →
      o'.holder = some b ∧ o'.requestLease = op.request o' := fun hh =>
    ⟨(h.holder hh.1).1, (h.holder hh.1).2.trans (hh.2.trans hr.symm)⟩
  cases pc
  case read => trivial
  case enter => trivial
  case linger => exact ⟨(h.overrun hh.1).1, (h.overrun hh.1).2.trans (hh.2.trans hr.symm)⟩
  all_goals exact keep hh

theorem Force.Holds.stable {c : ℕ} {pc : ForcePc} (hh : Force.Holds b o c pc)
    (h : Leaves b o o') (hn : o.next ≤ o'.next)
    (hr : c < o.next → (o'.children c).request = (o.children c).request) :
    Force.Holds b o' c pc := by
  have keep : (c < o.next ∧ o.holder = some b ∧
      ∀ r, o.requestLease = some r → (o.children c).request = some r) →
      c < o'.next ∧ o'.holder = some b ∧
        ∀ r, o'.requestLease = some r → (o'.children c).request = some r := by
    rintro ⟨hc, hb, hq⟩
    refine ⟨Nat.lt_of_lt_of_le hc hn, (h.holder hb).1, fun r hl => ?_⟩
    rw [hr hc]
    exact hq r ((h.holder hb).2 ▸ hl)
  cases pc
  case waiting => exact Nat.lt_of_lt_of_le hh hn
  all_goals exact keep hh

theorem Tx.Holds.stable {request : Option A} {pc : TxPc} (hh : Tx.Holds b o request pc)
    (hk : Tx.Knows b o pc) (hl : Keeps b o o') (h : Leaves b o o') : Tx.Holds b o' request pc := by
  have keep : o.lease = some b ∧ o.requestLease = request →
      o'.lease = some b ∧ o'.requestLease = request := fun hh =>
    ⟨(hl.leased hh.1).1, (h.lease hh.1).trans hh.2⟩
  cases pc
  case final => trivial
  case wrecking => exact ⟨(h.holder hh.1).1, (h.holder hh.1).2.trans hh.2⟩
  all_goals exact keep hh

theorem Bridge.Holds.stable {pc : BridgePc} (hh : Bridge.Holds b o pc) (hk : Bridge.Knows b o pc)
    (hl : Keeps b o o') (h : Leaves b o o') : Bridge.Holds b o' pc := by
  cases pc
  case install => exact h.still hk.1 (by simp [hk.2.1]) hh.1 hh.2
  case destroying => exact h.still hk.1 (by simp [hk.2.1]) hh.1 hh.2
  case detach => exact h.still hk.1 (by simp [hk.2.1]) hh.1 hh.2
  case wrecking => exact ⟨(h.holder hh.1).1, h.wreck hh.1 hh.2⟩
  case finish =>
    intro hi
    obtain ⟨hr, hv, hn⟩ := hh hi
    exact ⟨hl.request.trans hr, h.still (hk hi) (by simp [hr]) hv hn⟩
  all_goals trivial

theorem Close.Holds.stable {pc : ClosePc} (hh : Close.Holds b o pc) (h : Leaves b o o') :
    Close.Holds b o' pc := by
  cases pc
  case waiting => trivial
  case wrecking => exact ⟨(h.holder hh.1).1, (h.holder hh.1).2.trans hh.2⟩

theorem Party.Holds.stable {p : Party A} {lent : ℕ → Prop} (hh : p.Holds b o) (hk : p.Knows b o)
    (hl : Keeps b o o') (h : Leaves b o o') (hr : o.Retains o' lent) : p.Holds b o' := by
  cases p with
  | out => trivial
  | op job pc =>
    refine Operation.Holds.stable hh h ?_
    cases job with
    | plain => rfl
    | child c allowResult => exact hr.request c (hk.1 c allowResult rfl)
  | force c pc => exact Force.Holds.stable hh h hr.next (hr.request c)
  | transaction request pc => exact Tx.Holds.stable hh hk hl h
  | bridge request pc => exact Bridge.Holds.stable hh hk hl h
  | close pc => exact Close.Holds.stable hh h

end others

/-! ## The system -/

/-- The conditions under which the parties exclude each other. -/
def Orderly (w : World (Owner A K) A (Party A)) (l : A × Act A K) : Prop :=
  Undisturbed w l ∧ Courteous w l ∧ Patient w l

section move

variable {capacity : ℕ} {a b : A} {o o' : Owner A K} {p p' : Party A} {act : Act A K}

theorem Party.Move.leaves (h : Party.Move capacity a o p act o' p') (hb : b ≠ a) (hs : Shared o)
    (hg : SharedGate o) (hk : p.Knows a o) (hh : p.Holds a o)
    (hc : ∀ c, p = .force c .waiting → ∀ r, o.requestLease = some r → o.requests r = .running) :
    Leaves b o o' := by
  cases h with
  | start _ _ _ h => exact h.leaves hs
  | op job pc act o' r h => exact h.leaves hb hs hg hk.2 hh
  | force c pc act o' r h => exact h.leaves hb hs hh fun hpc => hc c (by rw [hpc])
  | transaction request pc act o' r h => exact h.leaves hb hs hk hh
  | bridge request pc act o' r h => exact h.leaves hb hs hg hk hh
  | close pc act o' r h => exact h.leaves hb hs hh

theorem Party.Move.sharedGate (h : Party.Move capacity a o p act o' p') (hs : Shared o)
    (hg : SharedGate o) (hk : p.Knows a o) (hh : p.Holds a o)
    (hp : (∃ c, p = .force c .waiting) → o.overrun = none) : SharedGate o' := by
  cases h with
  | start _ _ _ h => exact h.sharedGate hg
  | op job pc act o' r h => exact h.sharedGate hg
  | force c pc act o' r h => exact h.sharedGate hg fun hpc => hp ⟨c, by rw [hpc]⟩
  | transaction request pc act o' r h => exact h.sharedGate hs hg hk
  | bridge request pc act o' r h => exact h.sharedGate hg hh
  | close pc act o' r h => exact h.sharedGate hg

theorem Party.Move.holds (h : Party.Move capacity a o p act o' p') (hs : Shared o)
    (hg : SharedGate o) (hk : p.Knows a o) (hh : p.Holds a o)
    (hc : ∀ c, p = .force c .waiting →
      ∀ r, o.requestLease = some r → (o.children c).request = some r)
    (hp : (∃ request, p = .bridge request .waiting) → o.overrun = none) : p'.Holds a o' := by
  cases h with
  | start _ _ _ h => exact h.holds
  | op job pc act o' r h => have hr := h.holds hh; cases r <;> exact hr
  | force c pc act o' r h =>
    have hr := h.holds hh fun hpc => hc c (by rw [hpc])
    cases r <;> exact hr
  | transaction request pc act o' r h => have hr := h.holds hk hh; cases r <;> exact hr
  | bridge request pc act o' r h =>
    have hr := h.holds hs hg hk hh fun hpc => hp ⟨request, by rw [hpc]⟩
    cases r <;> exact hr
  | close pc act o' r h => have hr := h.holds hh; cases r <;> exact hr

end move

/-- **Every party holds what its position says** in every orderly run. -/
theorem holds_of_reachable {capacity : ℕ} {w : World (Owner A K) A (Party A)}
    (h : (connection A K capacity).system.Reachable Orderly w) :
    Interleaving.Modular (fun o => Shared o ∧ SharedGate o)
      (fun a o p => p.Knows a o ∧ p.Holds a o) w := by
  refine Interleaving.modular_of_reachable h (fun o ho => ?_) fun w l hw hg o' p' hs => ?_
  · subst ho
    refine ⟨⟨?_, ?_⟩, fun _ => ⟨trivial, trivial⟩⟩ <;> constructor <;> simp [Owner.fresh]
  · obtain ⟨hu, hc, hp⟩ := hg
    obtain ⟨⟨hS, hG⟩, hl⟩ := hw
    have hm := Party.move_of_step hs
    have running : ∀ c, w.parties l.1 = .force c .waiting → ∀ r, w.shared.requestLease = some r →
        w.shared.requests r = .running := fun c hf r hr => (hc c hf r hr).1
    refine ⟨⟨hm.shared hS (hl _).1, hm.sharedGate hS hG (hl _).1 (hl _).2 fun hf => hp (.inl hf)⟩,
      ⟨hm.knows hS (hl _).1, hm.holds hS hG (hl _).1 (hl _).2
        (fun c hf r hr => (hc c hf r hr).2) fun hb => hp (.inr hb)⟩, fun b hb => ?_⟩
    have hk := hm.keeps hb hS (hl _).1 running
    refine ⟨(hl b).1.stable hk hm.retains.next fun c hn hr => ?_, ?_⟩
    · exact hm.retains.transaction c hn fun h => h.elim fun tx hlend => hu c tx hlend b hr
    · exact (hl b).2.stable (hl b).1 hk (hm.leaves hb hS hG (hl _).1 (hl _).2 running) hm.retains

/-! ## Native work -/

/-- Between entry to and exit from native work. An operation is inside from its admission to its
return. -/
def OpPc.native : OpPc A → Bool
  | .read | .enter _ => false
  | _ => true

def ForcePc.native : ForcePc → Bool
  | .waiting => false
  | _ => true

/-- BEGIN, the drain of the transaction's children, COMMIT, ROLLBACK and the discard. -/
def TxPc.native : TxPc → Bool
  | .body | .revoked _ _ | .final => false
  | _ => true

/-- The installation, the cleanup of the request's children, the detachment and the discard. -/
def BridgePc.native : BridgePc → Bool
  | .install | .destroying _ | .detach | .wrecking _ => true
  | _ => false

def ClosePc.native : ClosePc → Bool
  | .waiting => false
  | .wrecking _ => true

namespace Party

def native : Party A → Bool
  | .out => false
  | .op _ pc => pc.native
  | .force _ pc => pc.native
  | .transaction _ pc => pc.native
  | .bridge _ pc => pc.native
  | .close pc => pc.native

/-- The request of the facade that a party works through. -/
def request (o : Owner A K) : Party A → Option A
  | .op job _ => job.request o
  | .force c _ => (o.children c).request
  | .transaction request _ => request
  | _ => none

/-- The step admits a user's operation, transaction or request. -/
def Admits (p p' : Party A) : Prop :=
  (∃ job tx, p = .op job (.enter tx) ∧ p' = .op job .admitted) ∨
    (∃ request, p = .out ∧ p' = .transaction request .begun) ∨
    ∃ request, p = .bridge request .admitRequest ∧ p' = .bridge request .install

end Party

/-- What a party inside native work has claimed. -/
def Owner.claimedBy (o : Owner A K) (a : A) : Prop :=
  o.holder = some a ∨ o.overrun = some a ∨ o.lease = some a ∧ o.busy = false ∨
    o.requestLease = some a ∧ o.vacant ∧ o.lease = none

section claimed

variable {o : Owner A K} {a b : A}

theorem Owner.claimedBy_unique (hs : Shared o) (hg : SharedGate o) (ha : o.claimedBy a)
    (hb : o.claimedBy b) : a = b := by
  have live : ∀ x, o.lease = some x → o.handle = true := by
    intro x hx
    by_contra hd
    simp [(hs.dead (by simpa using hd)).2] at hx
  grind [Owner.claimedBy, Owner.vacant, Shared, SharedGate]

theorem Party.claimed {p : Party A} (hk : p.Knows a o) (hh : p.Holds a o)
    (hn : p.native = true) : o.claimedBy a := by
  cases p with
  | out => cases hn
  -- between its admission and its end an operation is the holder
  | op job pc =>
    cases pc <;> first | exact .inl hh.1 | exact .inr (.inl hh.1) | cases hn
  | force c pc => cases pc <;> first | exact .inl hh.2.1 | cases hn
  -- a transaction that is not at work has the lease, and a bridge its request
  | transaction request pc =>
    cases pc
    case begun => exact .inr (.inr (.inl ⟨hk.1, hk.2.2⟩))
    case draining => exact .inr (.inr (.inl ⟨hk.1, hk.2.2⟩))
    case committing => exact .inr (.inr (.inl ⟨hk.1, hk.2.2⟩))
    case rolling => exact .inr (.inr (.inl ⟨hk.1, hk.2.2⟩))
    case discard => exact .inr (.inr (.inl ⟨hk.1, hk.2.2⟩))
    case release => exact .inl hk.2.2.1.1
    case wrecking => exact .inl hk.1.1
    all_goals cases hn
  | bridge request pc =>
    cases pc
    case install => exact .inr (.inr (.inr ⟨hk.1, hh⟩))
    case destroying => exact .inr (.inr (.inr ⟨hk.1, hh⟩))
    case detach => exact .inr (.inr (.inr ⟨hk.1, hh⟩))
    case wrecking => exact .inl hh.1
    all_goals cases hn
  | close pc => cases pc <;> first | exact .inl hh.1 | cases hn

/-- While a request holds the connection, native work is its own or goes through its facade. -/
theorem Party.within_request {p : Party A} {r : A} (hk : p.Knows a o) (hh : p.Holds a o)
    (hn : p.native = true) (hr : o.requestLease = some r) : a = r ∨ p.request o = some r := by
  cases p with
  | out => cases hn
  | op job pc => cases pc <;> first | exact .inr (hh.2.symm.trans hr) | cases hn
  | force c pc => cases pc <;> first | exact .inr (hh.2.2 r hr) | cases hn
  | transaction request pc =>
    cases pc <;> first | exact .inr (hh.2.symm.trans hr) | cases hn
  | bridge request pc =>
    cases pc <;> first | exact .inl (Option.some.inj (hk.1.symm.trans hr)) | cases hn
  | close pc =>
    cases pc
    case waiting => cases hn
    case wrecking => exact absurd (hh.2.symm.trans hr) (by simp)

end claimed

section steps

variable {capacity : ℕ} {a : A} {o o' : Owner A K} {p p' : Party A} {act : Act A K}

/-- A closing or closed gate stays so. -/
theorem Party.Move.shut (h : Party.Move capacity a o p act o' p') (hs : o.state ≠ .opened) :
    o'.state ≠ .opened := by
  have same : ∀ {o'}, o.SameGate o' → o'.state ≠ .opened := fun hg => hg.state ▸ hs
  cases h with
  | start _ _ _ h =>
    cases h
    case force => exact hs
    case close => simp
    case forceClose => simp
    case revoke => simp
    case cacheFind => exact same Owner.sameGate_cacheFind
    all_goals exact hs
  | op job pc act o' r h =>
    cases h
    case wreck hw => exact same (Wreck.sameGate hw)
    -- the end of a destruction leaves the gate closed
    case wrecked hw => rw [Wreck.closed hw]; simp [Owner.closeNative]
    all_goals exact hs
  | force c pc act o' r h => cases h <;> exact hs
  | transaction request pc act o' r h =>
    cases h
    case discard => simp [Owner.beginDiscard]
    case wreck hw => exact same (Wreck.sameGate hw)
    case wrecked hw => rw [Wreck.closed hw]; simp [Owner.closeNative]
    all_goals exact hs
  | bridge request pc act o' r h =>
    cases h
    case discard => simp [Owner.beginDiscard]
    case wreck hw => exact same (Wreck.sameGate hw)
    case wrecked hw => rw [Wreck.closed hw]; simp [Owner.closeNative]
    all_goals exact hs
  | close pc act o' r h =>
    cases h
    case wreck hw => exact same (Wreck.sameGate hw)
    case wrecked hw => rw [Wreck.closed hw]; simp [Owner.closeNative]
    all_goals exact hs

/-- Only an open gate admits. -/
theorem Party.Move.opened_of_admits (h : Party.Move capacity a o p act o' p')
    (ha : p.Admits p') : o.state = .opened := by
  rcases ha with ⟨job, tx, rfl, hp⟩ | ⟨request, rfl, hp⟩ | ⟨request, rfl, hp⟩
  · cases h with
    | op _ _ _ _ r h =>
      cases h
      case enter ho _ _ _ => exact ho.1
      all_goals cases hp
  · cases h with
    | start _ _ _ h =>
      cases h
      case begin ho _ _ _ => exact ho.1
      all_goals cases hp
  · cases h with
    | bridge _ _ _ _ r h =>
      cases h
      case admitRequest ho _ _ => exact ho.1
      all_goals cases hp

/-- The native handle is closed by a party at the end of `destroy_connection`. -/
theorem Party.Move.native_of_disconnects (h : Party.Move capacity a o p act o' p')
    (hd : o'.disconnects ≠ o.disconnects) : p.native = true := by
  have same : ∀ {o'}, o.SameGate o' → o'.disconnects ≠ o.disconnects → p.native = true :=
    fun hg hd => absurd hg.disconnects hd
  cases h with
  | start _ _ _ h =>
    cases h
    case cacheFind => exact same Owner.sameGate_cacheFind hd
    all_goals exact absurd rfl hd
  | op job pc act o' r h =>
    cases h
    case wreck => rfl
    case wrecked => rfl
    all_goals exact absurd rfl hd
  | force c pc act o' r h => cases h <;> exact absurd rfl hd
  | transaction request pc act o' r h =>
    cases h
    case wreck => rfl
    case wrecked => rfl
    all_goals exact absurd rfl hd
  | bridge request pc act o' r h =>
    cases h
    case wreck => rfl
    case wrecked => rfl
    all_goals exact absurd rfl hd
  | close pc act o' r h =>
    cases h
    case wreck => rfl
    case wrecked => rfl
    all_goals exact absurd rfl hd

end steps

/-- **Exclusion on a connection**: one party at most is inside native work; while a request holds
the connection that party is the request's; the handle is closed once at most, and by a party that
is then alone; a gate that is closing or closed stays so and admits nothing. -/
structure Exclusion (capacity : ℕ) (w : World (Owner A K) A (Party A)) : Prop where
  alone : ∀ a b, (w.parties a).native = true → (w.parties b).native = true → a = b
  request : ∀ r a, w.shared.requestLease = some r → (w.parties a).native = true →
    a = r ∨ (w.parties a).request w.shared = some r
  once : w.shared.disconnects ≤ 1
  closed : ∀ l w', (connection A K capacity).system.step w l = some w' →
    w'.shared.disconnects ≠ w.shared.disconnects →
      (w.parties l.1).native = true ∧ ∀ b, (w.parties b).native = true → b = l.1
  shut : w.shared.state ≠ .opened → ∀ l w', (connection A K capacity).system.step w l = some w' →
    w'.shared.state ≠ .opened ∧ ¬ (w.parties l.1).Admits (w'.parties l.1)

theorem exclusion_of_reachable {capacity : ℕ} {w : World (Owner A K) A (Party A)}
    (h : (connection A K capacity).system.Reachable Orderly w) : Exclusion capacity w := by
  obtain ⟨⟨hS, hG⟩, hl⟩ := holds_of_reachable h
  have alone : ∀ a b, (w.parties a).native = true → (w.parties b).native = true → a = b :=
    fun a b ha hb => Owner.claimedBy_unique hS hG (Party.claimed (hl a).1 (hl a).2 ha)
      (Party.claimed (hl b).1 (hl b).2 hb)
  refine ⟨alone, fun r a hr ha => Party.within_request (hl a).1 (hl a).2 ha hr, hG.once,
    fun l w' hs hd => ?_, fun hc l w' hs => ?_⟩
  · obtain ⟨o', p', hs', rfl⟩ := Interleaving.system_step hs
    have hn := (Party.move_of_step hs').native_of_disconnects hd
    exact ⟨hn, fun b hb => alone b l.1 hb hn⟩
  · obtain ⟨o', p', hs', rfl⟩ := Interleaving.system_step hs
    have hm := Party.move_of_step hs'
    refine ⟨hm.shut hc, fun ha => hc ?_⟩
    simp only [Function.update_self] at ha
    exact hm.opened_of_admits ha

end DuckdbMl.Resource
