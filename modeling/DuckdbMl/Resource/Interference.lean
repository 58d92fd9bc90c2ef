import DuckdbMl.Resource.Move

/-!
# What the parties of a connection know, and leave each other

Each party knows something of the shared record at each of its positions: which of `busy`, the
lease and the request lease it holds, and what nobody else can do meanwhile. The invariant is
thread-modular: the step of one party keeps the shared part and leaves the other parties what they
know (`Keeps`), as long as a cached statement is not lent away under an operation and
`force_close_child` waits for the requests.

## Main definitions

* `Shared`, `Party.Knows`: the shared invariant, and the knowledge of a party
* `Keeps`: what a step leaves another party
* `Owner.Retains`: children keep their requests and transactions

## Main results

* `Operation.Move.keeps` and its like for the other machines: what each machine leaves
* `Operation.Move.shared` and its like: each machine keeps the shared invariant
-/

set_option linter.unusedSectionVars false

namespace DuckdbMl.Resource

open Transition

variable {A K : Type} [DecidableEq A] [DecidableEq K]

/-! ## What holds of the shared record -/

/-- The callback of the transaction has, or had, its token. -/
def Owner.named (o : Owner A K) (tx : A) : Prop := o.tokens tx = .active ∨ o.tokens tx = .revoked

structure Shared (o : Owner A K) : Prop where
  lent : ∀ c x, (o.children c).transaction = some x → o.named x
  active : ∀ x, o.tokens x = .active →
    o.lease = some x ∧ o.session = some (.explicit x) ∧ o.handle = true
  dead : o.handle = false → o.state ≠ .opened ∧ o.lease = none
  holder : ∀ a, o.holder = some a → o.busy = true

/-- The party holds `busy` on a live connection. -/
def Owner.heldBy (o : Owner A K) (a : A) : Prop := o.holder = some a ∧ o.handle = true

/-- The session an operation works in: none of a user's outside a transaction, its own
transaction's inside one. -/
def Operation.InSession (o : Owner A K) (op : Operation A) : Prop :=
  match op.transaction o with
  | none => o.lease = none
  | some x => o.lease = some x ∧ o.session = some (.explicit x) ∧ o.named x

/-- What a party in an operation knows. -/
def Operation.Knows (a : A) (o : Owner A K) (op : Operation A) : OpPc A → Prop
  | .read => ∀ r x, op = .plain r (some x) → o.named x
  | .enter tx => op.transaction o = tx ∧ (∀ x, tx = some x → o.named x)
  | .admitted => o.heldBy a ∧ op.InSession o
  | .inside false | .executed false =>
    o.heldBy a ∧ op.InSession o ∧ op.transaction o ≠ none
  | .begin => o.heldBy a ∧ o.lease = none ∧ op.transaction o = none
  | .inside true | .executed true =>
    o.heldBy a ∧ o.lease = none ∧ op.transaction o = none ∧ o.session = some .internal
  | .undo | .wrecking _ => o.heldBy a ∧ o.lease = none
  | .finish => o.heldBy a
  | .linger => o.handle = false

def Force.Knows (a : A) (o : Owner A K) : ForcePc → Prop
  | .waiting => True
  | .destroying | .finishing => o.handle = true → o.holder = some a

/-- The lease is the party's, and nothing is admitted. -/
def Tx.Settling (a : A) (o : Owner A K) : Prop :=
  o.lease = some a ∧ o.tokens a = .revoked ∧ o.busy = false

def Tx.Knows (a : A) (o : Owner A K) : TxPc → Prop
  | .begun => o.lease = some a ∧ o.tokens a = .starting ∧ o.busy = false
  | .body => o.lease = some a ∧ o.tokens a = .active
  | .revoked _ _ => o.lease = some a ∧ o.tokens a = .revoked
  | .draining _ _ _ | .committing | .rolling _ | .discard => Tx.Settling a o
  | .release => o.lease = some a ∧ o.tokens a = .revoked ∧ o.heldBy a ∧ o.state ≠ .opened
  | .wrecking _ => o.heldBy a ∧ o.lease = none ∧ o.state ≠ .opened
  | .final => o.handle = true → Tx.Settling a o

/-- The request lease is the party's, and on a live connection nothing is admitted. -/
def Bridge.Still (a : A) (o : Owner A K) (s : RequestState) : Prop :=
  o.requestLease = some a ∧ o.requests a = s ∧
    (o.handle = true → o.busy = false ∧ o.lease = none)

def Bridge.Knows (a : A) (o : Owner A K) : BridgePc → Prop
  | .admitRequest => o.requests a = .admitted
  | .install => Bridge.Still a o .admitted
  | .callback => o.requestLease = some a ∧ o.requests a = .running
  | .quiesce => o.requestLease = some a
  | .waiting => o.requestLease = some a ∧ o.requests a = .quiescing
  | .destroying _ | .detach => Bridge.Still a o .settling
  | .wrecking _ => o.requestLease = some a ∧ o.requests a = .settling ∧ o.state ≠ .opened ∧
      (o.handle = true → o.holder = some a ∧ o.lease = none)
  | .finish installed => installed = true → o.requestLease = some a

def Close.Knows (a : A) (o : Owner A K) : ClosePc → Prop
  | .waiting => o.state ≠ .opened
  | .wrecking _ => o.state ≠ .opened ∧ (o.handle = true → o.holder = some a ∧ o.lease = none)

/-- The operation's child has been registered. -/
def Operation.Known (o : Owner A K) (op : Operation A) : Prop :=
  ∀ c allowResult, op = .child c allowResult → c < o.next

/-- **What a party knows at its position.** -/
def Party.Knows (a : A) (o : Owner A K) : Party A → Prop
  | .out => True
  | .op job pc => job.Known o ∧ job.Knows a o pc
  | .force _ pc => Force.Knows a o pc
  | .transaction _ pc => Tx.Knows a o pc
  | .bridge _ pc => Bridge.Knows a o pc
  | .close pc => Close.Knows a o pc

/-! ## What a step leaves the others -/

/-- Children keep their requests, and their transactions but for those in `lent`. -/
structure Owner.Retains (o o' : Owner A K) (lent : ℕ → Prop) : Prop where
  next : o.next ≤ o'.next
  request : ∀ c < o.next, (o'.children c).request = (o.children c).request
  transaction : ∀ c < o.next, ¬ lent c → (o'.children c).transaction = (o.children c).transaction

/-- What a step of another party leaves the party `b`. -/
structure Keeps (b : A) (o o' : Owner A K) : Prop where
  held : o.heldBy b → o'.heldBy b ∧ o'.lease = o.lease ∧ o'.session = o.session
  leased : o.lease = some b →
    o'.lease = some b ∧ o'.handle = o.handle ∧ o'.session = o.session
  token : o'.tokens b = o.tokens b
  settling : o.lease = some b → o.tokens b ≠ .active → o.busy = false → o'.busy = false
  requestLease : o.requestLease = some b → o'.requestLease = some b
  request : o'.requests b = o.requests b
  still : o.requestLease = some b → o.requests b ≠ .running →
    (o.handle = true → o.busy = false ∧ o.lease = none) →
    o'.handle = true → o'.busy = false ∧ o'.lease = none
  dead : o.handle = false → o'.handle = false
  shut : o.state ≠ .opened → o'.state ≠ .opened
  named : ∀ x, o.named x → o'.named x

theorem Owner.SameGate.keeps {o o' : Owner A K} (h : o.SameGate o') (b : A) : Keeps b o o' := by
  obtain ⟨state, busy, lease, requestLease, tokens, requests, session, handle, -, holder, -, -, -,
    -⟩ := h
  constructor <;> simp_all [Owner.heldBy, Owner.named]

theorem Owner.SameGate.shared {o o' : Owner A K} (h : o.SameGate o') (hs : Shared o) :
    Shared o' := by
  obtain ⟨lent, active, dead, holder⟩ := hs
  constructor <;> grind [Owner.SameGate, Owner.named]

theorem Owner.closeNative_keeps {o : Owner A K} {a b : A} (hb : b ≠ a)
    (ha : o.handle = true → o.holder = some a ∧ o.lease = none) (hs : Shared o) :
    Keeps b o o.closeNative := by
  constructor <;> simp only [Owner.closeNative, Owner.heldBy, Owner.named] <;> grind [Shared]

theorem Owner.claimBusy_keeps {o : Owner A K} {a b : A} (hbusy : o.busy = false)
    (hl : ∀ x, o.lease = some x → o.tokens x = .active)
    (hr : ∀ x, o.requestLease = some x → o.requests x = .running) (hs : Shared o) :
    Keeps b o (o.claimBusy a) := by
  constructor <;> simp only [Owner.claimBusy, Owner.heldBy, Owner.named] <;> grind [Shared]

theorem Owner.finishOperation_keeps {o : Owner A K} {a b : A} (hb : b ≠ a)
    (ha : o.handle = true → o.holder = some a) : Keeps b o o.finishOperation := by
  constructor <;> simp only [Owner.finishOperation, Owner.heldBy, Owner.named] <;> grind

theorem Owner.session_keeps {o : Owner A K} {a b : A} {s : Option (Session A)} (hb : b ≠ a)
    (ha : o.heldBy a ∧ o.lease = none ∨ o.lease = some a ∧ o.busy = false) (hs : Shared o) :
    Keeps b o { o with session := s } := by
  constructor <;> simp only [Owner.heldBy, Owner.named] at * <;> grind [Shared]


theorem Owner.overrun_keeps {o : Owner A K} {b : A} {s : Option A} :
    Keeps b o { o with overrun := s } := by
  constructor <;> simp_all [Owner.heldBy, Owner.named]

theorem Keeps.trans {b : A} {o₁ o₂ o₃ : Owner A K} (h₁ : Keeps b o₁ o₂) (h₂ : Keeps b o₂ o₃) :
    Keeps b o₁ o₃ := by
  constructor
  · intro h
    obtain ⟨hb, hl, hs⟩ := h₁.held h
    obtain ⟨hb', hl', hs'⟩ := h₂.held hb
    exact ⟨hb', hl'.trans hl, hs'.trans hs⟩
  · intro h
    obtain ⟨hl, hh, hs⟩ := h₁.leased h
    obtain ⟨hl', hh', hs'⟩ := h₂.leased hl
    exact ⟨hl', hh'.trans hh, hs'.trans hs⟩
  · exact h₂.token.trans h₁.token
  · intro hl ht hb
    exact h₂.settling (h₁.leased hl).1 (h₁.token ▸ ht) (h₁.settling hl ht hb)
  · exact h₂.requestLease ∘ h₁.requestLease
  · exact h₂.request.trans h₁.request
  · intro hl hr hs
    exact h₂.still (h₁.requestLease hl) (h₁.request ▸ hr) (h₁.still hl hr hs)
  · exact h₂.dead ∘ h₁.dead
  · exact h₂.shut ∘ h₁.shut
  · exact fun x => h₂.named x ∘ h₁.named x

theorem Owner.registerChild_keeps {o : Owner A K} {b : A} {request tx : Option A} {cached : Bool} :
    Keeps b o (o.registerChild request tx cached) := by
  constructor <;> simp_all [Owner.heldBy, Owner.named, Owner.registerChild]

/-- The token of a live operation is active, once its callback has it. -/
theorem Operation.token_active {o : Owner A K} {op : Operation A} {x : A}
    (ht : op.transaction o = some x) (hl : op.live o = true) (hn : o.named x) :
    o.tokens x = .active := by
  have hx : o.tokenActive (some x) = true := by
    cases op with
    | plain request tx =>
      have ht : tx = some x := ht
      exact ht ▸ hl
    | child c allowResult =>
      have ht : (o.children c).transaction = some x := ht
      simp only [Operation.live, ht, Bool.and_eq_true] at hl
      exact hl.2
  grind [Owner.tokenActive, Owner.named]

/-- A live operation of an open facade may claim. -/
theorem Operation.claim_keeps {o : Owner A K} {op : Operation A} {a b : A} {tx : Option A}
    (hs : Shared o) (hk : op.Knows a o (.enter tx)) (hl : op.live o = true)
    (ho : o.Open (op.request o)) (hbusy : o.busy = false) (hm : o.lease = tx) :
    Keeps b o (o.claimBusy a) := by
  refine Owner.claimBusy_keeps hbusy (fun x hx => ?_) (fun r hr => ?_) hs
  · have ht : op.transaction o = some x := hk.1.trans (hm.symm.trans hx)
    exact Operation.token_active ht hl (hk.2 x (hm.symm.trans hx))
  · exact ho.2.2 r (ho.2.1.symm.trans hr)

theorem Operation.Move.keeps {o o' : Owner A K} {op : Operation A} {pc : OpPc A} {act : Act A K}
    {r : Option (OpPc A)} {a b : A} (h : op.Move a o pc act o' r) (hb : b ≠ a)
    (hs : Shared o) (hk : op.Knows a o pc) : Keeps b o o' := by
  have same : Keeps b o o := Owner.SameGate.refl.keeps b
  -- the end of a session touches only its own holder
  have commit : o.heldBy a → o.lease = none → Keeps b o (o.setSession none) := fun hh hl =>
    Owner.session_keeps hb (.inl ⟨hh, hl⟩) hs
  cases h
  case enter tx hl ho hbusy hm _ => exact Operation.claim_keeps hs hk hl ho hbusy hm
  case register => exact Owner.registerChild_keeps
  case release => exact Owner.sameGate_releaseResult.keeps b
  case begin => exact Owner.session_keeps hb (.inl ⟨hk.1, hk.2.1⟩) hs
  case beginRaised => exact Owner.session_keeps hb (.inl ⟨hk.1, hk.2.1⟩) hs
  case commit => exact commit hk.1 hk.2.1
  case commitRaised => exact commit hk.1 hk.2.1
  case publishOwn => exact (commit hk.1 hk.2.1).trans (Owner.sameGate_reserveResult.keeps b)
  case publishLent => exact Owner.sameGate_reserveResult.keeps b
  case undo => exact commit hk.1 hk.2
  case wreck hw => exact (Wreck.sameGate hw).keeps b
  -- the native handle is closed by the party that holds the connection
  case wrecked hw =>
    rw [Wreck.closed hw]
    exact (Owner.closeNative_keeps hb (fun _ => ⟨hk.1.1, hk.2⟩) hs).trans Owner.overrun_keeps
  case finish => exact Owner.finishOperation_keeps hb fun _ => hk.1
  case linger =>
    have hk : o.handle = false := hk
    exact (Owner.finishOperation_keeps hb (by simp [hk])).trans Owner.overrun_keeps
  all_goals exact same

theorem Force.Move.keeps {o o' : Owner A K} {c : ℕ} {pc : ForcePc} {act : Act A K}
    {r : Option ForcePc} {a b : A} (h : Force.Move a o c pc act o' r) (hb : b ≠ a)
    (hs : Shared o) (hk : Force.Knows a o pc)
    (hg : pc = .waiting → ∀ x, o.requestLease = some x → o.requests x = .running) :
    Keeps b o o' := by
  cases h
  case claim hbusy hl _ =>
    refine Owner.claimBusy_keeps hbusy (fun x hx => ?_) (hg rfl) hs
    simp only [Owner.foreignLease, hx] at hl
    have := hs.lent c x
    grind [Owner.tokenActive, Owner.named]
  case gone => exact Owner.SameGate.refl.keeps b
  case destroy => exact Owner.sameGate_destroyChild.keeps b
  case finish => exact Owner.finishOperation_keeps hb hk

theorem Tx.setToken_keeps {o : Owner A K} {a b : A} {t : Token} (hb : b ≠ a)
    (ht : t = .active ∨ t = .revoked) : Keeps b o (setToken o a t) := by
  constructor <;> simp_all [setToken, Owner.heldBy, Owner.named, Function.update_apply]
  intro x hx
  split <;> simp_all

theorem Owner.beginDiscard_keeps {o : Owner A K} {a b : A} (hb : b ≠ a)
    (hbusy : o.handle = true → o.busy = false)
    (ha : o.lease = some a ∨ o.requestLease = some a ∧ (o.handle = true → o.lease = none))
    (hs : Shared o) : Keeps b o (o.beginDiscard a) := by
  constructor <;> simp only [Owner.beginDiscard, Owner.heldBy, Owner.named] <;> grind [Shared]

theorem Tx.releaseLease_keeps {o : Owner A K} {a b : A} (hb : b ≠ a)
    (ha : o.handle = true → o.lease = some a ∧ (o.holder = some a ∨ o.busy = false))
    (hs : Shared o) : Keeps b o (releaseLease o) := by
  constructor <;> simp only [releaseLease, Owner.heldBy, Owner.named] <;> grind [Shared]

theorem Tx.Move.keeps {o o' : Owner A K} {pc : TxPc} {act : Act A K}
    {r : Option TxPc} {a b : A} (h : Tx.Move a o pc act o' r) (hb : b ≠ a)
    (hs : Shared o) (hk : Tx.Knows a o pc) : Keeps b o o' := by
  have same : Keeps b o o := Owner.SameGate.refl.keeps b
  cases h
  -- a transaction changes its own token, and the session while it has the lease
  case begin =>
    exact (Owner.session_keeps hb (.inr ⟨hk.1, hk.2.2⟩) hs).trans (Tx.setToken_keeps hb (.inl rfl))
  case beginFailed => exact Tx.setToken_keeps hb (.inr rfl)
  case beginRaised =>
    exact (Owner.session_keeps hb (.inr ⟨hk.1, hk.2.2⟩) hs).trans (Tx.setToken_keeps hb (.inr rfl))
  case body => exact Tx.setToken_keeps hb (.inr rfl)
  case destroy => exact Owner.sameGate_destroyChild.keeps b
  case commit => exact Owner.session_keeps hb (.inr ⟨hk.1, hk.2.2⟩) hs
  case commitRaised => exact Owner.session_keeps hb (.inr ⟨hk.1, hk.2.2⟩) hs
  case rollback => exact Owner.session_keeps hb (.inr ⟨hk.1, hk.2.2⟩) hs
  case discard => exact Owner.beginDiscard_keeps hb (fun _ => hk.2.2) (.inl hk.1) hs
  -- it gives back its own lease
  case release =>
    obtain ⟨hl, -, hh, -⟩ := hk
    exact Tx.releaseLease_keeps hb (fun _ => ⟨hl, .inl hh.1⟩) hs
  case wreck hw => exact (Wreck.sameGate hw).keeps b
  case wrecked hw =>
    rw [Wreck.closed hw]
    exact Owner.closeNative_keeps hb (fun _ => ⟨hk.1.1, hk.2.1⟩) hs
  case final => exact Tx.releaseLease_keeps hb (fun h => ⟨(hk h).1, .inr (hk h).2.2⟩) hs
  all_goals exact same

theorem Bridge.setRequest_keeps {o : Owner A K} {a b : A} {s : RequestState} (hb : b ≠ a) :
    Keeps b o (setRequest o a s) := by
  constructor <;> simp_all [setRequest, Owner.heldBy, Owner.named]

theorem Bridge.requestLease_keeps {o : Owner A K} {a b : A} {s : Option A} (hb : b ≠ a)
    (ha : o.requestLease = some a ∨ o.requestLease = none) :
    Keeps b o { o with requestLease := s } := by
  constructor <;> simp only [Owner.heldBy, Owner.named] <;> grind

theorem Bridge.Move.keeps {o o' : Owner A K} {request : Option A} {pc : BridgePc} {act : Act A K}
    {r : Option BridgePc} {a b : A} (h : Bridge.Move a o request pc act o' r) (hb : b ≠ a)
    (hs : Shared o) (hk : Bridge.Knows a o pc) : Keeps b o o' := by
  have same : Keeps b o o := Owner.SameGate.refl.keeps b
  cases h
  case admitRequest ho hu _ =>
    exact Bridge.requestLease_keeps hb (.inr (Owner.unleased_eq_true.mp hu).2.1)
  case install => exact Bridge.setRequest_keeps hb
  case quiesce => exact Bridge.setRequest_keeps hb
  case settle => exact Bridge.setRequest_keeps hb
  case destroy => exact Owner.sameGate_destroyChild.keeps b
  case discard =>
    exact Owner.beginDiscard_keeps hb (fun h => (hk.2.2 h).1) (.inr ⟨hk.1, fun h => (hk.2.2 h).2⟩) hs
  case wreck hw => exact (Wreck.sameGate hw).keeps b
  case wrecked hw =>
    rw [Wreck.closed hw]
    exact Owner.closeNative_keeps hb hk.2.2.2 hs
  case finish => exact (Bridge.requestLease_keeps hb (.inl (hk rfl))).trans (Bridge.setRequest_keeps hb)
  case finishRefused => exact Bridge.setRequest_keeps hb
  all_goals exact same

theorem Close.Move.keeps {o o' : Owner A K} {pc : ClosePc} {act : Act A K}
    {r : Option ClosePc} {a b : A} (h : Close.Move a o pc act o' r) (hb : b ≠ a)
    (hs : Shared o) (hk : Close.Knows a o pc) : Keeps b o o' := by
  cases h
  case claim hq _ =>
    simp only [Owner.quiescent, Bool.and_eq_true, Bool.not_eq_true', Option.isNone_iff_eq_none] at hq
    exact Owner.claimBusy_keeps hq.1.1 (by simp [hq.1.2]) (by simp [hq.2]) hs
  case gone => exact Owner.SameGate.refl.keeps b
  case wreck hw => exact (Wreck.sameGate hw).keeps b
  case wrecked hw =>
    rw [Wreck.closed hw]
    exact Owner.closeNative_keeps hb hk.2 hs

theorem Owner.closing_keeps {o : Owner A K} {b : A} : Keeps b o { o with state := .closing } := by
  constructor <;> simp_all [Owner.heldBy, Owner.named]

theorem Party.Starts.keeps {capacity : ℕ} {o o' : Owner A K} {act : Act A K} {p : Party A} {a b : A}
    (h : Party.Starts capacity a o act o' p) (hb : b ≠ a) (hs : Shared o) : Keeps b o o' := by
  have same : Keeps b o o := Owner.SameGate.refl.keeps b
  cases h
  case force =>
    refine Owner.SameGate.keeps ?_ b
    exact Owner.sameGate_setChild fun _ => ⟨rfl, rfl⟩
  case begin hu ho hbusy hl _ =>
    constructor <;> simp only [Owner.heldBy, Owner.named] <;> grind [Shared, Owner.Open]
  case bridge => exact Bridge.setRequest_keeps hb
  case close ho hu _ =>
    obtain ⟨hbusy, hr, hl, -⟩ := Owner.unleased_eq_true.mp hu
    exact (Owner.claimBusy_keeps (a := a) hbusy (by simp [hl]) (by simp [hr]) hs).trans
      Owner.closing_keeps
  case forceClose => exact Owner.closing_keeps
  case revoke => exact Owner.closing_keeps
  case lend =>
    constructor <;> simp_all [Owner.lendChild, Owner.setChild, Owner.heldBy, Owner.named]
  case cacheFind => exact Owner.sameGate_cacheFind.keeps b
  case cacheAdd => exact Owner.sameGate_cacheAdd.keeps b
  case cacheRemove => exact Owner.sameGate_cacheRemove.keeps b
  all_goals exact same


/-! ## The shared invariant -/

section shared

variable {o o' : Owner A K} {a : A}

theorem Owner.claimBusy_shared (hs : Shared o) : Shared (o.claimBusy a) := by
  constructor <;> simp only [Owner.claimBusy, Owner.named] <;> grind [Shared, Owner.named]

theorem Owner.finishOperation_shared (hs : Shared o) : Shared o.finishOperation := by
  constructor <;> simp only [Owner.finishOperation, Owner.named] <;> grind [Shared, Owner.named]

theorem Owner.closing_shared (hs : Shared o) : Shared { o with state := .closing } := by
  constructor <;> simp only [Owner.named] <;> grind [Shared, Owner.named]

theorem Owner.overrun_shared {s : Option A} (hs : Shared o) : Shared { o with overrun := s } := by
  constructor <;> simp only [Owner.named] <;> grind [Shared, Owner.named]

theorem Owner.setSession_shared {s : Option (Session A)} (hs : Shared o)
    (ha : ∀ x, o.lease = some x → o.tokens x ≠ .active) : Shared (o.setSession s) := by
  constructor <;> simp only [Owner.setSession, Owner.named] <;> grind [Shared, Owner.named]

theorem Owner.closeNative_shared (hs : Shared o) (hl : o.handle = true → o.lease = none) :
    Shared o.closeNative := by
  constructor <;> simp only [Owner.closeNative, Owner.named] <;> grind [Shared, Owner.named]

theorem Owner.registerChild_shared {request tx : Option A} {cached : Bool} (hs : Shared o)
    (htx : ∀ x, tx = some x → o.named x) : Shared (o.registerChild request tx cached) := by
  constructor
  · intro c x hx
    simp only [Owner.registerChild, Function.update_apply] at hx ⊢
    split at hx
    · split at hx
      · cases hx
      · exact htx x hx
    · exact hs.lent c x hx
  · exact hs.active
  · exact hs.dead
  · exact hs.holder

theorem Operation.Move.shared {op : Operation A} {pc : OpPc A} {act : Act A K}
    {r : Option (OpPc A)} (h : op.Move a o pc act o' r) (hs : Shared o) (hk : op.Knows a o pc) :
    Shared o' := by
  have session : ∀ s, o.lease = none → Shared (o.setSession s) := fun s hl =>
    Owner.setSession_shared hs (by simp [hl])
  cases h
  case enter => exact Owner.claimBusy_shared hs
  case register request tx cached h =>
    subst h
    refine Owner.registerChild_shared hs fun x hx => ?_
    subst hx
    exact hk.2.2.2
  case release => exact Owner.sameGate_releaseResult.shared hs
  case begin => exact session _ hk.2.1
  case beginRaised => exact session _ hk.2.1
  case commit => exact session _ hk.2.1
  case commitRaised => exact session _ hk.2.1
  case publishOwn => exact Owner.sameGate_reserveResult.shared (session _ hk.2.1)
  case publishLent => exact Owner.sameGate_reserveResult.shared hs
  case undo => exact session _ hk.2
  case wreck hw => exact (Wreck.sameGate hw).shared hs
  case wrecked hw =>
    rw [Wreck.closed hw]
    exact Owner.overrun_shared (Owner.closeNative_shared hs fun _ => hk.2)
  case finish => exact Owner.finishOperation_shared hs
  case linger => exact Owner.overrun_shared (Owner.finishOperation_shared hs)
  all_goals exact hs

theorem Force.Move.shared {c : ℕ} {pc : ForcePc} {act : Act A K} {r : Option ForcePc}
    (h : Force.Move a o c pc act o' r) (hs : Shared o) : Shared o' := by
  cases h
  case claim => exact Owner.claimBusy_shared hs
  case gone => exact hs
  case destroy => exact Owner.sameGate_destroyChild.shared hs
  case finish => exact Owner.finishOperation_shared hs

theorem Tx.revoke_shared (hs : Shared o) : Shared (setToken o a .revoked) := by
  constructor <;> simp only [setToken, Owner.named, Function.update_apply] <;>
    grind [Shared, Owner.named]

theorem Tx.activate_shared (hs : Shared o) (hl : o.lease = some a) :
    Shared (setToken (o.setSession (some (.explicit a))) a .active) := by
  constructor <;> simp only [setToken, Owner.setSession, Owner.named, Function.update_apply] <;>
    grind [Shared, Owner.named]

theorem Tx.releaseLease_shared (hs : Shared o) (ha : o.lease = some a → o.tokens a ≠ .active)
    (hl : ∀ x, o.lease = some x → x = a) : Shared (releaseLease o) := by
  constructor <;> simp only [releaseLease, Owner.named] <;> grind [Shared, Owner.named]

theorem Owner.beginDiscard_shared (hs : Shared o) : Shared (o.beginDiscard a) := by
  constructor <;> simp only [Owner.beginDiscard, Owner.named] <;> grind [Shared, Owner.named]

theorem Tx.Move.shared {pc : TxPc} {act : Act A K} {r : Option TxPc}
    (h : Tx.Move a o pc act o' r) (hs : Shared o) (hk : Tx.Knows a o pc) : Shared o' := by
  have session : ∀ s, o.lease = some a → o.tokens a ≠ .active → Shared (o.setSession s) :=
    fun s hl ht => Owner.setSession_shared hs (by grind)
  cases h
  case begin => exact Tx.activate_shared hs hk.1
  case beginFailed => exact Tx.revoke_shared hs
  case beginRaised => exact Tx.revoke_shared (session _ hk.1 (by simp [hk.2.1]))
  case body => exact Tx.revoke_shared hs
  case destroy => exact Owner.sameGate_destroyChild.shared hs
  case commit => exact session _ hk.1 (by simp [hk.2.1])
  case commitRaised => exact session _ hk.1 (by simp [hk.2.1])
  case rollback => exact session _ hk.1 (by simp [hk.2.1])
  case discard => exact Owner.beginDiscard_shared hs
  case release =>
    exact Tx.releaseLease_shared (a := a) hs (by simp [hk.2.1]) (by simp [hk.1, eq_comm])
  case wreck hw => exact (Wreck.sameGate hw).shared hs
  case wrecked hw =>
    rw [Wreck.closed hw]
    exact Owner.closeNative_shared hs fun _ => hk.2.1
  case final =>
    refine Tx.releaseLease_shared (a := a) hs ?_ ?_ <;> grind [Tx.Knows, Tx.Settling, Shared]
  all_goals exact hs

theorem Bridge.setRequest_shared {s : RequestState} (hs : Shared o) :
    Shared (setRequest o a s) := by
  constructor <;> simp only [setRequest, Owner.named] <;> grind [Shared, Owner.named]

theorem Bridge.requestLease_shared {s : Option A} (hs : Shared o) :
    Shared { o with requestLease := s } := by
  constructor <;> simp only [Owner.named] <;> grind [Shared, Owner.named]

theorem Bridge.Move.shared {request : Option A} {pc : BridgePc} {act : Act A K}
    {r : Option BridgePc} (h : Bridge.Move a o request pc act o' r) (hs : Shared o)
    (hk : Bridge.Knows a o pc) : Shared o' := by
  cases h
  case admitRequest => exact Bridge.requestLease_shared hs
  case install => exact Bridge.setRequest_shared hs
  case quiesce => exact Bridge.setRequest_shared hs
  case settle => exact Bridge.setRequest_shared hs
  case destroy => exact Owner.sameGate_destroyChild.shared hs
  case discard => exact Owner.beginDiscard_shared hs
  case wreck hw => exact (Wreck.sameGate hw).shared hs
  case wrecked hw =>
    rw [Wreck.closed hw]
    exact Owner.closeNative_shared hs fun h => (hk.2.2.2 h).2
  case finish => exact Bridge.setRequest_shared (Bridge.requestLease_shared hs)
  case finishRefused => exact Bridge.setRequest_shared hs
  all_goals exact hs

theorem Close.Move.shared {pc : ClosePc} {act : Act A K} {r : Option ClosePc}
    (h : Close.Move a o pc act o' r) (hs : Shared o) (hk : Close.Knows a o pc) : Shared o' := by
  cases h
  case claim => exact Owner.claimBusy_shared hs
  case gone => exact hs
  case wreck hw => exact (Wreck.sameGate hw).shared hs
  case wrecked hw =>
    rw [Wreck.closed hw]
    exact Owner.closeNative_shared hs fun h => (hk.2 h).2

theorem Party.Starts.shared {capacity : ℕ} {act : Act A K} {p : Party A}
    (h : Party.Starts capacity a o act o' p) (hs : Shared o) : Shared o' := by
  cases h
  case force =>
    refine Owner.SameGate.shared ?_ hs
    exact Owner.sameGate_setChild fun _ => ⟨rfl, rfl⟩
  case begin hu ho hbusy hl _ =>
    constructor <;> simp only [Owner.named, Function.update_apply] <;>
      grind [Shared, Owner.Open, Owner.named]
  case bridge => exact Bridge.setRequest_shared hs
  case close => exact Owner.closing_shared (Owner.claimBusy_shared hs)
  case forceClose => exact Owner.closing_shared hs
  case revoke => exact Owner.closing_shared hs
  -- a child is lent to a transaction that has been named
  case lend c tx htx =>
    constructor
    · intro d x hx
      simp only [Owner.lendChild, Owner.setChild, Function.update_apply] at hx
      split at hx
      · exact htx x hx
      · exact hs.lent d x hx
    · exact hs.active
    · exact hs.dead
    · exact hs.holder
  case cacheFind => exact Owner.sameGate_cacheFind.shared hs
  case cacheAdd => exact Owner.sameGate_cacheAdd.shared hs
  case cacheRemove => exact Owner.sameGate_cacheRemove.shared hs
  all_goals exact hs

end shared

/-! ## The children -/

section retains

variable {o o' : Owner A K} {a : A} {L : ℕ → Prop}

theorem Owner.Retains.of_eq (hn : o'.next = o.next) (hc : o'.children = o.children) :
    o.Retains o' L :=
  ⟨Nat.le_of_eq hn.symm, fun c _ => by rw [hc], fun c _ _ => by rw [hc]⟩

theorem Owner.SameGate.retains (h : o.SameGate o') : o.Retains o' L :=
  ⟨Nat.le_of_eq h.next.symm, fun c _ => h.request c, fun c _ _ => h.transaction c⟩

theorem Owner.registerChild_retains {request tx : Option A} {cached : Bool} :
    o.Retains (o.registerChild request tx cached) L := by
  have old : ∀ c < o.next, (o.registerChild request tx cached).children c = o.children c :=
    fun c hc => by simp only [Owner.registerChild]; rw [Function.update_of_ne (Nat.ne_of_lt hc)]
  exact ⟨Nat.le_succ _, fun c hc => by rw [old c hc], fun c hc _ => by rw [old c hc]⟩

theorem Operation.Move.retains {op : Operation A} {pc : OpPc A} {act : Act A K}
    {r : Option (OpPc A)} (h : op.Move a o pc act o' r) : o.Retains o' L := by
  cases h
  case register => exact Owner.registerChild_retains
  case wreck hw => exact (Wreck.sameGate hw).retains
  case wrecked hw => rw [Wreck.closed hw]; exact .of_eq rfl rfl
  all_goals exact .of_eq rfl rfl

theorem Force.Move.retains {c : ℕ} {pc : ForcePc} {act : Act A K} {r : Option ForcePc}
    (h : Force.Move a o c pc act o' r) : o.Retains o' L := by
  cases h
  case destroy => exact Owner.sameGate_destroyChild.retains
  all_goals exact .of_eq rfl rfl

theorem Tx.Move.retains {pc : TxPc} {act : Act A K} {r : Option TxPc}
    (h : Tx.Move a o pc act o' r) : o.Retains o' L := by
  cases h
  case destroy => exact Owner.sameGate_destroyChild.retains
  case wreck hw => exact (Wreck.sameGate hw).retains
  case wrecked hw => rw [Wreck.closed hw]; exact .of_eq rfl rfl
  all_goals exact .of_eq rfl rfl

theorem Bridge.Move.retains {request : Option A} {pc : BridgePc} {act : Act A K}
    {r : Option BridgePc} (h : Bridge.Move a o request pc act o' r) : o.Retains o' L := by
  cases h
  case destroy => exact Owner.sameGate_destroyChild.retains
  case wreck hw => exact (Wreck.sameGate hw).retains
  case wrecked hw => rw [Wreck.closed hw]; exact .of_eq rfl rfl
  all_goals exact .of_eq rfl rfl

theorem Close.Move.retains {pc : ClosePc} {act : Act A K} {r : Option ClosePc}
    (h : Close.Move a o pc act o' r) : o.Retains o' L := by
  cases h
  case wreck hw => exact (Wreck.sameGate hw).retains
  case wrecked hw => rw [Wreck.closed hw]; exact .of_eq rfl rfl
  all_goals exact .of_eq rfl rfl

theorem Party.Starts.retains {capacity : ℕ} {act : Act A K} {p : Party A}
    (h : Party.Starts capacity a o act o' p) : o.Retains o' fun c => ∃ tx, act = .lend c tx := by
  cases h
  case force =>
    refine Owner.SameGate.retains ?_
    exact Owner.sameGate_setChild fun _ => ⟨rfl, rfl⟩
  case lend d tx _ =>
    refine ⟨Nat.le_refl _, fun c _ => ?_, fun c _ hl => ?_⟩
    · by_cases hcd : c = d
      · subst hcd
        simp [Owner.lendChild, Owner.setChild]
      · simp [Owner.lendChild, Owner.setChild, hcd]
    · have hcd : c ≠ d := by
        rintro rfl
        exact hl ⟨tx, rfl⟩
      simp [Owner.lendChild, Owner.setChild, hcd]
  case cacheFind => exact Owner.sameGate_cacheFind.retains
  case cacheAdd => exact Owner.sameGate_cacheAdd.retains
  case cacheRemove => exact Owner.sameGate_cacheRemove.retains
  all_goals exact .of_eq rfl rfl

end retains

end DuckdbMl.Resource
