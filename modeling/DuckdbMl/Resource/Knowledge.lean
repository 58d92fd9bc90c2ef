import DuckdbMl.Resource.Interference

/-!
# Every party of a connection knows what its position says

The thread-modular argument put together: what the party that moves knows after its move, what
the others still know, and from both what holds in every run.

## Main definitions

* `Undisturbed`, `Courteous`: the conditions on lending and on `force_close_child`

## Main results

* `knows_of_reachable`: every party knows what its position says
-/

set_option linter.unusedSectionVars false

namespace DuckdbMl.Resource

open Transition

variable {A K : Type} [DecidableEq A] [DecidableEq K]

/-! ## What the party that moves knows -/

section own

variable {o o' : Owner A K} {a : A}

theorem Owner.SameGate.heldBy (h : o.SameGate o') (hh : o.heldBy a) : o'.heldBy a :=
  ⟨h.holder.trans hh.1, h.handle.trans hh.2⟩

theorem Operation.Move.knows {op : Operation A} {pc : OpPc A} {act : Act A K}
    {r : Option (OpPc A)} (h : op.Move a o pc act o' r) (hs : Shared o) (hk : op.Knows a o pc) :
    r.elim True (op.Knows a o') := by
  cases h
  case read =>
    refine ⟨rfl, fun x hx => ?_⟩
    cases op with
    | plain request tx => exact hk request x (by simpa [Operation.transaction] using hx)
    | child c allowResult => exact hs.lent c x hx
  -- what the operation has read of its transaction still holds when it is admitted
  case enter tx hl ho hbusy hm _ =>
    have live : o.handle = true := by grind [Shared, Owner.Open]
    refine ⟨⟨rfl, live⟩, ?_⟩
    have htx : op.transaction (o.claimBusy a) = tx := hk.1
    simp only [Operation.InSession, htx]
    cases tx with
    | none => exact hm
    | some x =>
      have hn := hk.2 x rfl
      have hx := Operation.token_active hk.1 hl hn
      exact ⟨hm, (hs.active x hx).2.1, hn⟩
  -- the child is used for the transaction it is lent to, or for itself
  case lent c allowResult hop ht =>
    subst hop
    exact ⟨hk.1, hk.2, ht⟩
  case own c allowResult hop ht =>
    subst hop
    have hl := hk.2
    simp only [Operation.InSession, Operation.transaction, ht] at hl
    exact ⟨hk.1, hl, ht⟩
  case begin => exact ⟨hk.1, hk.2.1, hk.2.2, rfl⟩
  case beginFailed => exact ⟨hk.1, hk.2.1⟩
  case beginRaised => exact ⟨hk.1, hk.2.1⟩
  case execute own => cases own <;> exact hk
  case failOwn hpc => rcases hpc with rfl | rfl <;> exact ⟨hk.1, hk.2.1⟩
  case failLent hpc => rcases hpc with rfl | rfl <;> exact hk.1
  -- a destruction under way leaves the gate as it is
  case wreck hw =>
    have := Wreck.sameGate hw
    exact ⟨this.heldBy hk.1, this.lease.trans hk.2⟩
  case wrecked hw =>
    rw [Wreck.closed hw]
    exact rfl
  case commitRaised => exact ⟨hk.1, hk.2.1⟩
  all_goals first | trivial | exact hk | exact hk.1

theorem Force.Move.knows {c : ℕ} {pc : ForcePc} {act : Act A K} {r : Option ForcePc}
    (h : Force.Move a o c pc act o' r) (hk : Force.Knows a o pc) :
    r.elim True (Force.Knows a o') := by
  cases h
  case claim => exact fun _ => rfl
  case gone => trivial
  case destroy =>
    have hg : o.SameGate (o.destroyChild c) := Owner.sameGate_destroyChild
    exact fun h => hg.holder.trans (hk (hg.handle ▸ h))
  case finish => trivial

theorem Owner.SameGate.settling (h : o.SameGate o') (hk : Tx.Settling a o) : Tx.Settling a o' :=
  ⟨h.lease.trans hk.1, by rw [h.tokens]; exact hk.2.1, h.busy.trans hk.2.2⟩

theorem Tx.Move.knows {pc : TxPc} {act : Act A K} {r : Option TxPc}
    (h : Tx.Move a o pc act o' r) (hs : Shared o) (hk : Tx.Knows a o pc) :
    r.elim True (Tx.Knows a o') := by
  have revoked : (setToken o a .revoked).tokens a = .revoked := by simp [setToken]
  cases h
  -- the token names the session from its begin to its end
  case begin => exact ⟨hk.1, by simp [setToken]⟩
  case beginFailed => exact ⟨hk.1, revoked⟩
  case beginRaised => exact ⟨hk.1, by simp [setToken]⟩
  case body => exact ⟨hk.1, revoked⟩
  case drain hb => exact ⟨hk.1, hk.2, hb⟩
  case destroy => exact Owner.sameGate_destroyChild.settling hk
  case drained hpc => rcases hpc with rfl | rfl | rfl <;> first | exact hk | exact ⟨hk.1, hk.2.1⟩
  case commit => exact fun _ => hk
  case commitFailed => exact ⟨hk.1, hk.2.1⟩
  case commitRaised => exact ⟨hk.1, hk.2.1⟩
  case rollback => exact fun _ => hk
  case nothing => exact fun _ => hk
  case rollbackFailed => exact hk
  -- a discard makes the party the holder
  case discard =>
    refine ⟨hk.1, hk.2.1, ⟨rfl, ?_⟩, by simp [Owner.beginDiscard]⟩
    have := hk.1
    grind [Shared, Owner.beginDiscard]
  case release => exact ⟨hk.2.2.1, rfl, hk.2.2.2⟩
  case wreck hw =>
    have := Wreck.sameGate hw
    exact ⟨this.heldBy hk.1, this.lease.trans hk.2.1, this.state ▸ hk.2.2⟩
  case wrecked hw =>
    rw [Wreck.closed hw]
    intro h
    cases h
  case final => trivial

theorem Bridge.setRequest_self {s : RequestState} : (setRequest o a s).requests a = s := by
  simp [setRequest]

theorem Owner.SameGate.still (h : o.SameGate o') {s : RequestState} (hk : Bridge.Still a o s) :
    Bridge.Still a o' s :=
  ⟨h.requestLease.trans hk.1, by rw [h.requests]; exact hk.2.1, fun hh => by
    rw [h.busy, h.lease]; exact hk.2.2 (h.handle ▸ hh)⟩

theorem Bridge.Move.knows {request : Option A} {pc : BridgePc} {act : Act A K}
    {r : Option BridgePc} (h : Bridge.Move a o request pc act o' r) (hk : Bridge.Knows a o pc) :
    r.elim True (Bridge.Knows a o') := by
  cases h
  -- the connection was free, and is the request's from now on
  case admitRequest ho hu _ =>
    obtain ⟨hb, -, hl, -⟩ := Owner.unleased_eq_true.mp hu
    exact ⟨rfl, hk, fun _ => ⟨hb, hl⟩⟩
  case refuse => exact fun h => by cases h
  case install => exact ⟨hk.1, Bridge.setRequest_self⟩
  case leave hpc => rcases hpc with rfl | rfl <;> exact hk.1
  case quiesce => exact ⟨hk, Bridge.setRequest_self⟩
  case settle hb hl => exact ⟨hk.1, Bridge.setRequest_self, fun _ => ⟨hb, hl⟩⟩
  case destroy => exact Owner.sameGate_destroyChild.still hk
  case destroyed => exact hk
  case detach => exact fun _ => hk.1
  case discard =>
    exact ⟨hk.1, hk.2.1, by simp [Owner.beginDiscard], fun h => ⟨rfl, (hk.2.2 h).2⟩⟩
  -- a destruction under way leaves the gate as it is
  case wreck hw =>
    have hg := Wreck.sameGate hw
    exact ⟨hg.requestLease.trans hk.1, by rw [hg.requests]; exact hk.2.1, hg.state ▸ hk.2.2.1,
      fun h => by rw [hg.holder, hg.lease]; exact hk.2.2.2 (hg.handle ▸ h)⟩
  case wrecked hw =>
    rw [Wreck.closed hw]
    exact fun _ => hk.1
  case finish => trivial
  case finishRefused => trivial

theorem Close.Move.knows {pc : ClosePc} {act : Act A K} {r : Option ClosePc}
    (h : Close.Move a o pc act o' r) (hk : Close.Knows a o pc) :
    r.elim True (Close.Knows a o') := by
  cases h
  case claim hq _ =>
    simp only [Owner.quiescent, Bool.and_eq_true, Bool.not_eq_true', Option.isNone_iff_eq_none] at hq
    exact ⟨hk, fun _ => ⟨rfl, hq.1.2⟩⟩
  case gone => trivial
  case wreck hw =>
    have hg := Wreck.sameGate hw
    exact ⟨hg.state ▸ hk.1, fun h => by rw [hg.holder, hg.lease]; exact hk.2 (hg.handle ▸ h)⟩
  case wrecked => trivial

theorem Party.Starts.knows {capacity : ℕ} {act : Act A K} {p : Party A}
    (h : Party.Starts capacity a o act o' p) : p.Knows a o' := by
  cases h
  case plain request tx htx =>
    exact ⟨fun c _ h => (by cases h), fun r x h => htx x (by simpa using (Operation.plain.inj h).2)⟩
  case child c allowResult hc =>
    exact ⟨fun d _ h => (by obtain ⟨rfl, rfl⟩ := Operation.child.inj h; exact hc),
      fun r x h => by cases h⟩
  case force => trivial
  case begin hu ho hb hl _ => exact ⟨rfl, by simp, hb⟩
  case bridge => exact Bridge.setRequest_self
  case close ho hu _ =>
    exact ⟨by simp, fun _ => ⟨rfl, (Owner.unleased_eq_true.mp hu).2.2.1⟩⟩
  case forceClose => exact fun h => by cases h
  all_goals trivial

end own


/-! ## What the others know -/

section others

variable {o o' : Owner A K} {a b : A}

/-- The position relies on the transaction its child is lent to. -/
def OpPc.relies : OpPc A → Bool
  | .read | .linger | .finish | .undo | .wrecking _ => false
  | _ => true

theorem Operation.Knows.stable {op : Operation A} {pc : OpPc A} (hk : op.Knows b o pc)
    (h : Keeps b o o') (ht : pc.relies = true → op.transaction o' = op.transaction o) :
    op.Knows b o' pc := by
  -- what a session looks like to its holder does not change under another party's step
  have session : op.InSession o → o.heldBy b → op.transaction o' = op.transaction o →
      op.InSession o' := by
    intro hin hh ht
    obtain ⟨-, hl, hs⟩ := h.held hh
    simp only [Operation.InSession, ht] at hin ⊢
    cases hx : op.transaction o with
    | none => simpa [hx, hl] using hin
    | some x =>
      simp only [hx, hl, hs] at hin ⊢
      exact ⟨hin.1, hin.2.1, h.named x hin.2.2⟩
  have own : o.heldBy b → o.lease = none → o'.heldBy b ∧ o'.lease = none := fun hh hl =>
    ⟨(h.held hh).1, (h.held hh).2.1.trans hl⟩
  cases pc
  case read => exact fun r x hx => h.named x (hk r x hx)
  case enter tx => exact ⟨(ht rfl).trans hk.1, fun x hx => h.named x (hk.2 x hx)⟩
  case admitted => exact ⟨(h.held hk.1).1, session hk.2 hk.1 (ht rfl)⟩
  case inside lent =>
    cases lent with
    | false => exact ⟨(h.held hk.1).1, session hk.2.1 hk.1 (ht rfl), by rw [ht rfl]; exact hk.2.2⟩
    | true =>
      obtain ⟨hh, hl, hn, hs⟩ := hk
      exact ⟨(own hh hl).1, (own hh hl).2, (ht rfl).trans hn, (h.held hh).2.2.trans hs⟩
  case executed lent =>
    cases lent with
    | false => exact ⟨(h.held hk.1).1, session hk.2.1 hk.1 (ht rfl), by rw [ht rfl]; exact hk.2.2⟩
    | true =>
      obtain ⟨hh, hl, hn, hs⟩ := hk
      exact ⟨(own hh hl).1, (own hh hl).2, (ht rfl).trans hn, (h.held hh).2.2.trans hs⟩
  case begin => exact ⟨(own hk.1 hk.2.1).1, (own hk.1 hk.2.1).2, (ht rfl).trans hk.2.2⟩
  case undo => exact own hk.1 hk.2
  case wrecking => exact own hk.1 hk.2
  case finish => exact (h.held hk).1
  case linger => exact h.dead hk

/-- A dead handle stays dead, and a live one was live. -/
theorem Keeps.alive (h : Keeps b o o') (ha : o'.handle = true) : o.handle = true := by
  by_contra hd
  have := h.dead (by simpa using hd)
  simp [this] at ha

theorem Force.Knows.stable {pc : ForcePc} (hk : Force.Knows b o pc) (h : Keeps b o o') :
    Force.Knows b o' pc := by
  cases pc
  case waiting => trivial
  all_goals exact fun ha => (h.held ⟨hk (h.alive ha), h.alive ha⟩).1.1

theorem Tx.Settling.stable (hk : Settling b o) (h : Keeps b o o') : Settling b o' :=
  ⟨(h.leased hk.1).1, h.token.trans hk.2.1, h.settling hk.1 (by simp [hk.2.1]) hk.2.2⟩

theorem Tx.Knows.stable {pc : TxPc} (hk : Tx.Knows b o pc) (h : Keeps b o o') :
    Tx.Knows b o' pc := by
  cases pc
  case begun =>
    exact ⟨(h.leased hk.1).1, h.token.trans hk.2.1, h.settling hk.1 (by simp [hk.2.1]) hk.2.2⟩
  case body => exact ⟨(h.leased hk.1).1, h.token.trans hk.2⟩
  case revoked => exact ⟨(h.leased hk.1).1, h.token.trans hk.2⟩
  case release =>
    exact ⟨(h.leased hk.1).1, h.token.trans hk.2.1, (h.held hk.2.2.1).1, h.shut hk.2.2.2⟩
  case wrecking => exact ⟨(h.held hk.1).1, (h.held hk.1).2.1.trans hk.2.1, h.shut hk.2.2⟩
  case final => exact fun ha => (hk (h.alive ha)).stable h
  all_goals exact Tx.Settling.stable hk h

theorem Bridge.Still.stable {s : RequestState} (hk : Still b o s) (hs : s ≠ .running)
    (h : Keeps b o o') : Still b o' s :=
  ⟨h.requestLease hk.1, h.request.trans hk.2.1, h.still hk.1 (hk.2.1 ▸ hs) hk.2.2⟩

theorem Bridge.Knows.stable {pc : BridgePc} (hk : Bridge.Knows b o pc) (h : Keeps b o o') :
    Bridge.Knows b o' pc := by
  cases pc
  case admitRequest => exact h.request.trans hk
  case install => exact Bridge.Still.stable hk (by simp) h
  case callback => exact ⟨h.requestLease hk.1, h.request.trans hk.2⟩
  case quiesce => exact h.requestLease hk
  case waiting => exact ⟨h.requestLease hk.1, h.request.trans hk.2⟩
  case destroying => exact Bridge.Still.stable hk (by simp) h
  case detach => exact Bridge.Still.stable hk (by simp) h
  case wrecking =>
    refine ⟨h.requestLease hk.1, h.request.trans hk.2.1, h.shut hk.2.2.1, fun ha => ?_⟩
    obtain ⟨hb, hl⟩ := hk.2.2.2 (h.alive ha)
    have hh := h.held ⟨hb, h.alive ha⟩
    exact ⟨hh.1.1, hh.2.1.trans hl⟩
  case finish => exact fun hi => h.requestLease (hk hi)

theorem Close.Knows.stable {pc : ClosePc} (hk : Close.Knows b o pc) (h : Keeps b o o') :
    Close.Knows b o' pc := by
  cases pc
  case waiting => exact h.shut hk
  case wrecking =>
    refine ⟨h.shut hk.1, fun ha => ?_⟩
    obtain ⟨hb, hl⟩ := hk.2 (h.alive ha)
    have hh := h.held ⟨hb, h.alive ha⟩
    exact ⟨hh.1.1, hh.2.1.trans hl⟩

/-- The party relies on the transaction that the child `c` is lent to. -/
def Party.relies (p : Party A) (c : ℕ) : Prop :=
  ∃ allowResult pc, p = .op (.child c allowResult) pc ∧ pc.relies = true

theorem Party.Knows.stable {p : Party A} (hk : p.Knows b o) (h : Keeps b o o')
    (hn : o.next ≤ o'.next)
    (ht : ∀ c < o.next, p.relies c → (o'.children c).transaction = (o.children c).transaction) :
    p.Knows b o' := by
  cases p with
  | out => trivial
  | op job pc =>
    refine ⟨fun c r hc => Nat.lt_of_lt_of_le (hk.1 c r hc) hn, hk.2.stable h fun hr => ?_⟩
    cases job with
    | plain => rfl
    | child c allowResult => exact ht c (hk.1 c allowResult rfl) ⟨allowResult, pc, rfl, hr⟩
  | force => exact Force.Knows.stable hk h
  | transaction => exact Tx.Knows.stable hk h
  | bridge => exact Bridge.Knows.stable hk h
  | close => exact Close.Knows.stable hk h

end others

/-! ## Names and the request lease -/

section names

variable {o o' : Owner A K} {a : A}

/-- The request lease is the same, and tokens that their callbacks have had are named as before. -/
structure Owner.Steady (o o' : Owner A K) : Prop where
  requestLease : o'.requestLease = o.requestLease
  named : ∀ x, o.named x → o'.named x

theorem Owner.Steady.of_tokens (hr : o'.requestLease = o.requestLease)
    (ht : o'.tokens = o.tokens) : o.Steady o' :=
  ⟨hr, fun x hx => by simpa [Owner.named, ht] using hx⟩

theorem Wreck.steady {w : Wreck} {r : Option Wreck} (h : w.step o = (o', r)) : o.Steady o' := by
  obtain ⟨-, hg⟩ | ⟨-, rfl⟩ := Wreck.step_eq h
  · exact .of_tokens hg.requestLease hg.tokens
  · exact .of_tokens rfl rfl

theorem Operation.Move.steady {op : Operation A} {pc : OpPc A} {act : Act A K}
    {r : Option (OpPc A)} (h : op.Move a o pc act o' r) : o.Steady o' := by
  cases h
  case wreck hw => exact Wreck.steady hw
  case wrecked hw => exact ⟨(Wreck.steady hw).requestLease, (Wreck.steady hw).named⟩
  all_goals exact .of_tokens rfl rfl

theorem Force.Move.steady {c : ℕ} {pc : ForcePc} {act : Act A K} {r : Option ForcePc}
    (h : Force.Move a o c pc act o' r) : o.Steady o' := by
  cases h <;> exact .of_tokens rfl rfl

theorem Close.Move.steady {pc : ClosePc} {act : Act A K} {r : Option ClosePc}
    (h : Close.Move a o pc act o' r) : o.Steady o' := by
  cases h
  case wreck hw => exact Wreck.steady hw
  case wrecked hw => exact Wreck.steady hw
  all_goals exact .of_tokens rfl rfl

theorem Tx.setToken_named {t : Token} (ht : t = .active ∨ t = .revoked) {x : A} (hx : o.named x) :
    (setToken o a t).named x := by
  simp only [setToken, Owner.named, Function.update_apply] at hx ⊢
  split
  · exact ht
  · exact hx

theorem Tx.Move.steady {pc : TxPc} {act : Act A K} {r : Option TxPc}
    (h : Tx.Move a o pc act o' r) : o.Steady o' := by
  cases h
  case wreck hw => exact Wreck.steady hw
  case wrecked hw => exact Wreck.steady hw
  case begin => exact ⟨rfl, fun x hx => Tx.setToken_named (.inl rfl) hx⟩
  case beginFailed => exact ⟨rfl, fun x hx => Tx.setToken_named (.inr rfl) hx⟩
  case beginRaised => exact ⟨rfl, fun x hx => Tx.setToken_named (.inr rfl) hx⟩
  case body => exact ⟨rfl, fun x hx => Tx.setToken_named (.inr rfl) hx⟩
  all_goals exact .of_tokens rfl rfl

theorem Party.Starts.steady {capacity : ℕ} {act : Act A K} {p : Party A}
    (h : Party.Starts capacity a o act o' p) : o.Steady o' := by
  cases h
  case begin hu _ _ _ _ =>
    refine ⟨rfl, fun x hx => ?_⟩
    have hne : x ≠ a := by
      rintro rfl
      simp [Owner.named, hu] at hx
    simpa [Owner.named, hne] using hx
  case cacheFind key =>
    have hg : o.SameGate (o.cacheFind key).1 := Owner.sameGate_cacheFind
    exact .of_tokens hg.requestLease hg.tokens
  all_goals exact .of_tokens rfl rfl

/-- A step of a party that runs no request is steady. -/
theorem Party.Move.steady {capacity : ℕ} {p p' : Party A} {act : Act A K}
    (h : Party.Move capacity a o p act o' p') (hp : ∀ request pc, p ≠ .bridge request pc) :
    o.Steady o' := by
  cases h with
  | start _ _ _ h => exact h.steady
  | op job pc act o' r h => exact h.steady
  | force c pc act o' r h => exact h.steady
  | transaction request pc act o' r h => exact h.steady
  | bridge request pc act o' r h => exact absurd rfl (hp request pc)
  | close pc act o' r h => exact h.steady

end names

/-! ## The system -/

/-- A cached statement is not lent while an operation of another party relies on the transaction
it is lent to. -/
def Undisturbed (w : World (Owner A K) A (Party A)) (l : A × Act A K) : Prop :=
  ∀ c tx, l.2 = .lend c tx → ∀ b, ¬ (w.parties b).relies c

/-- `force_close_child` claims the connection only when no request holds it, or the child's own
request, while its callback runs. -/
def Courteous (w : World (Owner A K) A (Party A)) (l : A × Act A K) : Prop :=
  ∀ c, w.parties l.1 = .force c .waiting → ∀ r, w.shared.requestLease = some r →
    w.shared.requests r = .running ∧ (w.shared.children c).request = some r

theorem Party.Move.keeps {capacity : ℕ} {a b : A} {o o' : Owner A K} {p p' : Party A}
    {act : Act A K} (h : Party.Move capacity a o p act o' p') (hb : b ≠ a) (hs : Shared o)
    (hk : p.Knows a o)
    (hg : ∀ c, p = .force c .waiting → ∀ r, o.requestLease = some r → o.requests r = .running) :
    Keeps b o o' := by
  cases h with
  | start _ _ _ h => exact h.keeps hb hs
  | op job pc act o' r h => exact h.keeps hb hs hk.2
  | force c pc act o' r h => exact h.keeps hb hs hk fun hpc => hg c (by rw [hpc])
  | transaction request pc act o' r h => exact h.keeps hb hs hk
  | bridge request pc act o' r h => exact h.keeps hb hs hk
  | close pc act o' r h => exact h.keeps hb hs hk

theorem Party.Move.shared {capacity : ℕ} {a : A} {o o' : Owner A K} {p p' : Party A}
    {act : Act A K} (h : Party.Move capacity a o p act o' p') (hs : Shared o)
    (hk : p.Knows a o) : Shared o' := by
  cases h with
  | start _ _ _ h => exact h.shared hs
  | op job pc act o' r h => exact h.shared hs hk.2
  | force c pc act o' r h => exact h.shared hs
  | transaction request pc act o' r h => exact h.shared hs hk
  | bridge request pc act o' r h => exact h.shared hs hk
  | close pc act o' r h => exact h.shared hs hk

theorem Party.Move.retains {capacity : ℕ} {a : A} {o o' : Owner A K} {p p' : Party A}
    {act : Act A K} (h : Party.Move capacity a o p act o' p') :
    o.Retains o' fun c => ∃ tx, act = .lend c tx := by
  cases h with
  | start _ _ _ h => exact h.retains
  | op job pc act o' r h => exact h.retains
  | force c pc act o' r h => exact h.retains
  | transaction request pc act o' r h => exact h.retains
  | bridge request pc act o' r h => exact h.retains
  | close pc act o' r h => exact h.retains

theorem Party.Move.knows {capacity : ℕ} {a : A} {o o' : Owner A K} {p p' : Party A}
    {act : Act A K} (h : Party.Move capacity a o p act o' p') (hs : Shared o)
    (hk : p.Knows a o) : p'.Knows a o' := by
  cases h with
  | start _ _ _ h => exact h.knows
  | op job pc act o' r h =>
    have hr := h.knows hs hk.2
    cases r with
    | none => trivial
    | some pc' =>
      exact ⟨fun c allow hc => Nat.lt_of_lt_of_le (hk.1 c allow hc)
        (h.retains (L := fun _ => False)).next, hr⟩
  | force c pc act o' r h => have hr := h.knows hk; cases r <;> exact hr
  | transaction request pc act o' r h => have hr := h.knows hs hk; cases r <;> exact hr
  | bridge request pc act o' r h => have hr := h.knows hk; cases r <;> exact hr
  | close pc act o' r h => have hr := h.knows hk; cases r <;> exact hr

/-- A step keeps what every party knows, when lent statements are left undisturbed and
`force_close_child` waits for the requests. -/
theorem knows_step {capacity : ℕ} {w : World (Owner A K) A (Party A)} {l : A × Act A K}
    {o' : Owner A K} {p' : Party A} (hw : Interleaving.Modular Shared Party.Knows w)
    (hu : Undisturbed w l) (hc : Courteous w l)
    (hm : Party.Move capacity l.1 w.shared (w.parties l.1) l.2 o' p') :
    Shared o' ∧ p'.Knows l.1 o' ∧ ∀ b, b ≠ l.1 → (w.parties b).Knows b o' := by
  refine ⟨hm.shared hw.shared (hw.local_ _), hm.knows hw.shared (hw.local_ _), fun b hb => ?_⟩
  refine (hw.local_ b).stable (hm.keeps hb hw.shared (hw.local_ _) fun c hp r hr =>
    (hc c hp r hr).1) hm.retains.next ?_
  intro c hn hr
  exact hm.retains.transaction c hn fun ⟨tx, hl⟩ => hu c tx hl b hr

/-- **Every party knows what its position says**, in every run with these conditions. -/
theorem knows_of_reachable {capacity : ℕ} {G : Guard (World (Owner A K) A (Party A)) (A × Act A K)}
    {w : World (Owner A K) A (Party A)} (hG : ∀ w l, G w l → Undisturbed w l ∧ Courteous w l)
    (h : (connection A K capacity).system.Reachable G w) :
    Interleaving.Modular Shared Party.Knows w := by
  refine Interleaving.modular_of_reachable h (fun o ho => ?_) fun w l hw hg o' p' hs => ?_
  · subst ho
    refine ⟨?_, fun _ => trivial⟩
    constructor <;> simp [Owner.fresh]
  · exact knows_step hw (hG w l hg).1 (hG w l hg).2 (Party.move_of_step hs)

end DuckdbMl.Resource
