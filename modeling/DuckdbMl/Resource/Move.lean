import DuckdbMl.Resource.Party

/-!
# What one step of a party can do

For each machine of `Resource.Party` the list of its moves, one constructor for each kind of
section or native call with what it requires and what it leaves, and the theorem that every step
is one of them.

## Main results

* `Operation.move_of_step`, `Force.move_of_step`, `Tx.move_of_step`, `Bridge.move_of_step`,
  `Close.move_of_step`, `Party.move_of_step`: the inversions
* `Wreck.step_eq`: `destroy_connection` leaves the gate alone until it closes the handle
-/

set_option linter.unusedSectionVars false

namespace DuckdbMl.Resource

open Transition

variable {A K : Type} [DecidableEq A] [DecidableEq K]

/-! ## Admission -/

namespace Owner

variable {o o' : Owner A K} {a : A}

theorem require_eq_ok {holds : Bool} {error : Error} {u : Unit} :
    require holds error = .ok u ↔ holds = true := by
  unfold require
  cases holds <;> simp

theorem available_eq_ok {u : Unit} : o.available = .ok u ↔ o.state = .opened := by
  unfold available
  split <;> simp_all

theorem bind_eq_ok {ε α β : Type} {x : Except ε α} {f : α → Except ε β} {b : β} :
    x >>= f = .ok b ↔ ∃ a, x = .ok a ∧ f a = .ok b := by
  cases x <;> simp [bind, Except.bind]

theorem facadeAccess_eq_ok {request : Option A} {u : Unit} (h : o.facadeAccess request = .ok u) :
    o.requestLease = request ∧ ∀ r, request = some r → o.requests r = .running := by
  cases request with
  | none =>
    simp only [facadeAccess] at h
    split at h <;> simp_all
  | some r =>
    simp only [facadeAccess] at h
    split at h <;> simp_all

/-- The connection is open and the facade is the one that holds it. -/
def Open (o : Owner A K) (request : Option A) : Prop :=
  o.state = .opened ∧ o.requestLease = request ∧ ∀ r, request = some r → o.requests r = .running

theorem admitOperation_eq_ok {request : Option A} {live : Bool} {tx : Option A}
    {holder : Option ℕ} (h : o.admitOperation a request live tx holder = .ok o') :
    live = true ∧ o.Open request ∧ o.busy = false ∧ o.lease = tx ∧ o.resultFree holder = true ∧
      o' = o.claimBusy a := by
  simp only [admitOperation, bind_eq_ok, require_eq_ok, available_eq_ok, pure, Except.pure,
    Except.ok.injEq, Bool.and_eq_true, Bool.not_eq_true', leaseMatches, decide_eq_true_eq] at h
  obtain ⟨-, hl, -, ha, u, hf, -, ⟨⟨hb, hm⟩, hr⟩, rfl⟩ := h
  exact ⟨hl, ⟨ha, facadeAccess_eq_ok hf⟩, hb, hm, hr, rfl⟩

end Owner

theorem Tx.start_eq_ok {o o' : Owner A K} {a : A} {request : Option A}
    (h : Tx.start a o request = .ok o') :
    o.Open request ∧ o.busy = false ∧ o.lease = none ∧ o.resultOwner = none ∧
      o' = { o with lease := some a, tokens := Function.update o.tokens a .starting } := by
  simp only [Tx.start, Owner.bind_eq_ok, Owner.require_eq_ok, Owner.available_eq_ok, pure,
    Except.pure, Except.ok.injEq, Bool.and_eq_true, Bool.not_eq_true', Option.isNone_iff_eq_none] at h
  obtain ⟨u, hf, -, ha, -, ⟨⟨hb, hl⟩, hr⟩, rfl⟩ := h
  exact ⟨⟨ha, Owner.facadeAccess_eq_ok hf⟩, hb, hl, hr, rfl⟩

theorem Owner.unleased_eq_true {o : Owner A K} : o.unleased = true ↔
    o.busy = false ∧ o.requestLease = none ∧ o.lease = none ∧ o.resultOwner = none := by
  simp [Owner.unleased, and_assoc]

theorem Bridge.admit_eq_ok {o o' : Owner A K} {a : A} {request : Option A}
    (h : Bridge.admitRequest a o request = .ok o') :
    o.Open request ∧ o.unleased = true ∧ o.preparedChildren = [] ∧
      o' = { o with requestLease := some a } := by
  simp only [Bridge.admitRequest, Owner.bind_eq_ok, Owner.require_eq_ok, Owner.available_eq_ok, pure,
    Except.pure, Except.ok.injEq, List.isEmpty_iff] at h
  obtain ⟨u, hf, -, ha, -, hu, -, hp, rfl⟩ := h
  exact ⟨⟨ha, Owner.facadeAccess_eq_ok hf⟩, hu, hp, rfl⟩

/-! ## Moves -/

/-- What an operation's step can do. -/
inductive Operation.Move (a : A) (o : Owner A K) (op : Operation A) :
    OpPc A → Act A K → Owner A K → Option (OpPc A) → Prop
  | read : Move a o op .read .ok o (some (.enter (op.transaction o)))
  | enter (tx) : op.live o = true → o.Open (op.request o) → o.busy = false → o.lease = tx →
      o.resultFree op.holder = true → Move a o op (.enter tx) .ok (o.claimBusy a) (some .admitted)
  | refuse (tx) : Move a o op (.enter tx) .ok o none
  | work (act) : act = .ok ∨ act = .error → Move a o op .admitted act o (some .finish)
  | register (request tx cached) : op = .plain request tx →
      Move a o op .admitted (.register cached) (o.registerChild request tx cached) (some .finish)
  | lent (c allowResult) : op = .child c allowResult → (o.children c).transaction ≠ none →
      Move a o op .admitted .snapshot o (some (.inside false))
  | own (c allowResult) : op = .child c allowResult → (o.children c).transaction = none →
      Move a o op .admitted .snapshot o (some .begin)
  | release (c allowResult) : op = .child c allowResult →
      Move a o op .admitted .release (o.releaseResult c) (some .finish)
  | begin : o.session = none →
      Move a o op .begin .ok (o.setSession (some .internal)) (some (.inside true))
  | beginFailed (act) : act = .ok ∧ o.session ≠ none ∨ act = .error ∨ act = .errorAfter →
      Move a o op .begin act o (some .undo)
  | beginRaised : Move a o op .begin .errorAfter (o.setSession (some .internal)) (some .undo)
  | beginSuppressed : Move a o op .begin .suppressed o (some .finish)
  | execute (own) : Move a o op (.inside own) .ok o (some (.executed own))
  | failOwn (pc act) : pc = .inside true ∨ pc = .executed true →
      Move a o op pc act o (some .undo)
  | failLent (pc act) : pc = .inside false ∨ pc = .executed false →
      Move a o op pc act o (some .finish)
  | commit (act) : Move a o op (.executed true) act (o.setSession none) (some .finish)
  | commitRaised : Move a o op (.executed true) .errorAfter (o.setSession none) (some .undo)
  | publishOwn (c allowResult) : op = .child c allowResult →
      Move a o op (.executed true) .ok ((o.setSession none).reserveResult c) (some .finish)
  | publishLent (c allowResult) : op = .child c allowResult →
      Move a o op (.executed false) .ok (o.reserveResult c) (some .finish)
  | undo : Move a o op .undo .ok (o.setSession none) (some .finish)
  | discard : Move a o op .undo .error o (some (.wrecking .children))
  | wreck (w w' o') : w.step o = (o', some w') →
      Move a o op (.wrecking w) .ok o' (some (.wrecking w'))
  | wrecked (w o') : w.step o = (o', none) →
      Move a o op (.wrecking w) .ok { o' with overrun := some a } (some .linger)
  | finish : Move a o op .finish .ok o.finishOperation none
  | linger : Move a o op .linger .ok { o.finishOperation with overrun := none } none

theorem Operation.move_of_step {a : A} {o o' : Owner A K} {op : Operation A} {pc : OpPc A}
    {act : Act A K} {r : Option (OpPc A)} (h : op.step a o pc act = some (o', r)) :
    op.Move a o pc act o' r := by
  unfold Operation.step at h
  split at h
  all_goals try simp only [Option.some.injEq, Prod.mk.injEq, reduceCtorEq] at h
  -- the admission, and the destruction of a connection, are functions of their own
  case h_2 tx =>
    split at h
    case h_1 o₁ ha =>
      obtain ⟨rfl, rfl⟩ : o₁ = o' ∧ some .admitted = r := by simpa using h
      obtain ⟨hl, ho, hb, hm, hr, rfl⟩ := Owner.admitOperation_eq_ok ha
      exact .enter tx hl ho hb hm hr
    case h_2 =>
      obtain ⟨rfl, rfl⟩ : o = o' ∧ none = r := by simpa using h
      exact .refuse tx
  case h_20 w =>
    split at h
    case h_1 o₁ w' hw =>
      obtain ⟨rfl, rfl⟩ : o₁ = o' ∧ some (.wrecking w') = r := by simpa using h
      exact .wreck w w' o₁ hw
    case h_2 o₁ hw =>
      obtain ⟨rfl, rfl⟩ := Prod.mk.inj (Option.some.inj h)
      exact .wrecked w o₁ hw
  all_goals grind [Operation.Move, Owner.begin, Owner.commit, Option.isSome_iff_ne_none,
    Option.isNone_iff_eq_none]

/-- What a step of `force_close_child` can do. -/
inductive Force.Move (a : A) (o : Owner A K) (c : ℕ) :
    ForcePc → Act A K → Owner A K → Option ForcePc → Prop
  | claim : o.busy = false → o.foreignLease c = false → (o.children c).state ≠ .closed →
      Move a o c .waiting .ok (o.claimBusy a) (some .destroying)
  | gone : (o.children c).state = .closed → Move a o c .waiting .ok o none
  | destroy : Move a o c .destroying .ok (o.destroyChild c) (some .finishing)
  | finish : Move a o c .finishing .ok o.finishOperation none

theorem Force.move_of_step {a : A} {o o' : Owner A K} {c : ℕ} {pc : ForcePc} {act : Act A K}
    {r : Option ForcePc} (h : Force.step a o c pc act = some (o', r)) :
    Force.Move a o c pc act o' r := by
  unfold Force.step at h
  split at h
  all_goals grind [Force.Move]

/-- What a step of `with_transaction` can do. -/
inductive Tx.Move (a : A) (o : Owner A K) :
    TxPc → Act A K → Owner A K → Option TxPc → Prop
  | begin : o.session = none →
      Move a o .begun .ok (setToken (o.setSession (some (.explicit a))) a .active) (some .body)
  | beginFailed (act attempted) : Move a o .begun act (setToken o a .revoked)
      (some (.revoked attempted .recover))
  | beginRaised : o.session = none →
      Move a o .begun .errorAfter (setToken (o.setSession (some (.explicit a))) a .revoked)
        (some (.revoked true .recover))
  | body (act ok) : Move a o .body act (setToken o a .revoked) (some (.revoked true (.body ok)))
  | drain (attempted drain) : o.busy = false →
      Move a o (.revoked attempted drain) .ok o (some (.draining attempted drain
        (o.preparedChildren.filter fun c => (o.children c).transaction = some a)))
  | destroy (attempted drain c cs) : Move a o (.draining attempted drain (c :: cs)) .ok
      (o.destroyChild c) (some (.draining attempted drain cs))
  | drained (attempted drain pc) :
      pc = .committing ∨ pc = .revoked attempted .recover ∨ pc = .rolling attempted →
      Move a o (.draining attempted drain []) .ok o (some pc)
  | commit : Move a o .committing .ok (o.setSession none) (some .final)
  | commitFailed : Move a o .committing .error o (some (.revoked true .recover))
  | commitRaised (act attempted) :
      Move a o .committing act (o.setSession none) (some (.revoked attempted .recover))
  | rollback : Move a o (.rolling true) .ok (o.setSession none) (some .final)
  | nothing : Move a o (.rolling false) .ok o (some .final)
  | rollbackFailed : Move a o (.rolling true) .error o (some .discard)
  | discard : Move a o .discard .ok (o.beginDiscard a) (some .release)
  | release : Move a o .release .ok (releaseLease o) (some (.wrecking .children))
  | wreck (w w' o') : w.step o = (o', some w') →
      Move a o (.wrecking w) .ok o' (some (.wrecking w'))
  | wrecked (w o') : w.step o = (o', none) → Move a o (.wrecking w) .ok o' (some .final)
  | final : Move a o .final .ok (releaseLease o) none

theorem Tx.move_of_step {a : A} {o o' : Owner A K} {pc : TxPc} {act : Act A K}
    {r : Option TxPc} (h : Tx.step a o pc act = some (o', r)) : Tx.Move a o pc act o' r := by
  unfold Tx.step at h
  split at h
  all_goals try simp only [Option.some.injEq, Prod.mk.injEq, reduceCtorEq] at h
  case h_18 w =>
    split at h
    case h_1 o₁ w' hw =>
      obtain ⟨rfl, rfl⟩ : o₁ = o' ∧ some (.wrecking w') = r := by simpa using h
      exact .wreck w w' o₁ hw
    case h_2 o₁ hw =>
      obtain ⟨rfl, rfl⟩ := Prod.mk.inj (Option.some.inj h)
      exact .wrecked w o₁ hw
  all_goals grind [Tx.Move, Owner.begin, Owner.commit, Option.isNone_iff_eq_none]

/-- What a step of `Bridge.run` can do. -/
inductive Bridge.Move (a : A) (o : Owner A K) (request : Option A) :
    BridgePc → Act A K → Owner A K → Option BridgePc → Prop
  | admitRequest : o.Open request → o.unleased = true → o.preparedChildren = [] →
      Move a o request .admitRequest .ok { o with requestLease := some a } (some .install)
  | refuse (act) : Move a o request .admitRequest act o (some (.finish false))
  | install : Move a o request .install .ok (setRequest o a .running) (some .callback)
  | leave (pc act) : pc = .install ∨ pc = .callback → Move a o request pc act o (some .quiesce)
  | quiesce : Move a o request .quiesce .ok (setRequest o a .quiescing) (some .waiting)
  | settle : o.busy = false → o.lease = none →
      Move a o request .waiting .ok (setRequest o a .settling) (some (.destroying
        (o.preparedChildren.filter fun c => (o.children c).request = some a)))
  | destroy (c cs) : Move a o request (.destroying (c :: cs)) .ok (o.destroyChild c)
      (some (.destroying cs))
  | destroyed : Move a o request (.destroying []) .ok o (some .detach)
  | detach : Move a o request .detach .ok o (some (.finish true))
  | discard : Move a o request .detach .error (o.beginDiscard a) (some (.wrecking .children))
  | wreck (w w' o') : w.step o = (o', some w') →
      Move a o request (.wrecking w) .ok o' (some (.wrecking w'))
  | wrecked (w o') : w.step o = (o', none) →
      Move a o request (.wrecking w) .ok o' (some (.finish true))
  | finish : Move a o request (.finish true) .ok
      (setRequest (releaseRequest o) a .finished) none
  | finishRefused : Move a o request (.finish false) .ok (setRequest o a .finished) none

theorem Bridge.move_of_step {a : A} {o o' : Owner A K} {request : Option A} {pc : BridgePc}
    {act : Act A K} {r : Option BridgePc} (h : Bridge.step a o request pc act = some (o', r)) :
    Bridge.Move a o request pc act o' r := by
  unfold Bridge.step at h
  split at h
  all_goals try simp only [Option.some.injEq, Prod.mk.injEq, reduceCtorEq] at h
  case h_1 =>
    split at h
    case h_1 o₁ ha =>
      obtain ⟨rfl, rfl⟩ : o₁ = o' ∧ some .install = r := by simpa using h
      obtain ⟨ho, hu, hp, rfl⟩ := Bridge.admit_eq_ok ha
      exact .admitRequest ho hu hp
    case h_2 =>
      obtain ⟨rfl, rfl⟩ : o = o' ∧ some (.finish false) = r := by simpa using h
      exact .refuse .ok
  case h_12 w =>
    split at h
    case h_1 o₁ w' hw =>
      obtain ⟨rfl, rfl⟩ : o₁ = o' ∧ some (.wrecking w') = r := by simpa using h
      exact .wreck w w' o₁ hw
    case h_2 o₁ hw =>
      obtain ⟨rfl, rfl⟩ := Prod.mk.inj (Option.some.inj h)
      exact .wrecked w o₁ hw
  all_goals grind [Bridge.Move, Option.isSome_iff_ne_none]

/-- What a step of a close can do. -/
inductive Close.Move (a : A) (o : Owner A K) : ClosePc → Act A K → Owner A K → Option ClosePc → Prop
  | claim : o.quiescent = true → o.state ≠ .closed →
      Move a o .waiting .ok (o.claimBusy a) (some (.wrecking .children))
  | gone : o.state = .closed → Move a o .waiting .ok o none
  | wreck (w w' o') : w.step o = (o', some w') →
      Move a o (.wrecking w) .ok o' (some (.wrecking w'))
  | wrecked (w o') : w.step o = (o', none) → Move a o (.wrecking w) .ok o' none

theorem Close.move_of_step {a : A} {o o' : Owner A K} {pc : ClosePc} {act : Act A K}
    {r : Option ClosePc} (h : Close.step a o pc act = some (o', r)) :
    Close.Move a o pc act o' r := by
  unfold Close.step at h
  split at h
  all_goals grind [Close.Move]

/-- What a party outside can start. -/
inductive Party.Starts (capacity : ℕ) (a : A) (o : Owner A K) : Act A K → Owner A K → Party A → Prop
  | plain (request tx) : (∀ x, tx = some x → o.tokens x = .active ∨ o.tokens x = .revoked) →
      Starts capacity a o (.operate (.plain request tx)) o (.op (.plain request tx) .read)
  | child (c allowResult) : c < o.next →
      Starts capacity a o (.operate (.child c allowResult)) o (.op (.child c allowResult) .read)
  | force (c) : c < o.next → (o.children c).state ≠ .closed →
      Starts capacity a o (.force c) (o.setChild c fun child => { child with state := .closing })
        (.force c .waiting)
  | begin (request) : o.tokens a = .unused → o.Open request → o.busy = false → o.lease = none →
      o.resultOwner = none →
      Starts capacity a o (.transaction request)
        { o with lease := some a, tokens := Function.update o.tokens a .starting }
        (.transaction request .begun)
  | bridge (request) : o.requests a = .fresh →
      Starts capacity a o (.bridge request) (Bridge.setRequest o a .admitted)
        (.bridge request .admitRequest)
  | close : o.state = .opened → o.unleased = true → o.preparedChildren = [] →
      Starts capacity a o .close { o.claimBusy a with state := .closing }
        (.close (.wrecking .children))
  | forceClose : o.state ≠ .closed →
      Starts capacity a o .forceClose { o with state := .closing } (.close .waiting)
  | revoke : o.state = .opened → Starts capacity a o .revoke { o with state := .closing } .out
  | lend (c tx) : (∀ x, tx = some x → o.tokens x = .active ∨ o.tokens x = .revoked) →
      Starts capacity a o (.lend c tx) (o.lendChild c tx) .out
  | cacheFind (key) : Starts capacity a o (.cacheFind key) (o.cacheFind key).1 .out
  | cacheAdd (key c) : Starts capacity a o (.cacheAdd key c) (o.cacheAdd capacity key c).1 .out
  | cacheRemove (key) : Starts capacity a o (.cacheRemove key) (o.cacheRemove key).1 .out
  | nothing (act) : Starts capacity a o act o .out

theorem Party.starts_of_start {capacity : ℕ} {a : A} {o o' : Owner A K} {act : Act A K}
    {p : Party A} (h : Party.start capacity a o act = some (o', p)) :
    Party.Starts capacity a o act o' p := by
  unfold Party.start at h
  split at h
  -- a transaction starts with a lease, if the connection is free
  case h_3 request =>
    split at h
    case isTrue hu =>
      split at h
      case h_1 o₁ ho =>
        obtain ⟨rfl, rfl⟩ : o₁ = o' ∧ .transaction request .begun = p := by simpa using h
        obtain ⟨hf, hb, hl, hr, rfl⟩ := Tx.start_eq_ok ho
        exact .begin request hu hf hb hl hr
      case h_2 =>
        obtain ⟨rfl, rfl⟩ : o = o' ∧ .out = p := by simpa using h
        exact .nothing _
    case isFalse => cases h
  -- an operation may be of a transaction, whose token is looked at
  case h_1 work =>
    cases work with
    | plain request tx =>
      cases tx with
      | none => grind [Party.Starts]
      | some x => cases hx : o.tokens x <;> grind [Party.Starts]
    | child c allowResult => grind [Party.Starts]
  case h_8 c tx =>
    cases tx with
    | none => grind [Party.Starts]
    | some x => cases hx : o.tokens x <;> simp_all <;> grind [Party.Starts]
  all_goals grind [Party.Starts, Party.returned, Force.start, Close.start, Close.startForce,
    Close.revoke]

/-- What a party's step does: what it starts, or a move of the machine it runs. -/
inductive Party.Move (capacity : ℕ) (a : A) (o : Owner A K) :
    Party A → Act A K → Owner A K → Party A → Prop
  | start (act o' p) : Party.Starts capacity a o act o' p → Move capacity a o .out act o' p
  | op (job pc act o' r) : Operation.Move a o job pc act o' r →
      Move capacity a o (.op job pc) act o' (r.elim .out (.op job))
  | force (c pc act o' r) : Force.Move a o c pc act o' r →
      Move capacity a o (.force c pc) act o' (r.elim .out (.force c))
  | transaction (request pc act o' r) : Tx.Move a o pc act o' r →
      Move capacity a o (.transaction request pc) act o' (r.elim .out (.transaction request))
  | bridge (request pc act o' r) : Bridge.Move a o request pc act o' r →
      Move capacity a o (.bridge request pc) act o' (r.elim .out (.bridge request))
  | close (pc act o' r) : Close.Move a o pc act o' r →
      Move capacity a o (.close pc) act o' (r.elim .out .close)

theorem Party.move_of_step {capacity : ℕ} {a : A} {o o' : Owner A K} {p p' : Party A}
    {act : Act A K} (h : Party.step capacity a o p act = some (o', p')) :
    Party.Move capacity a o p act o' p' := by
  have returned_eq : ∀ {π : Type} {f : π → Party A} {r : Owner A K × Option π},
      Party.returned f r = (o', p') → r.1 = o' ∧ r.2.elim .out f = p' := by
    intro π f r hr
    exact Prod.mk.inj hr
  cases p with
  | out => exact .start _ _ _ (Party.starts_of_start h)
  | op job pc =>
    obtain ⟨⟨o₁, r⟩, hr, he⟩ := Option.map_eq_some_iff.mp h
    obtain ⟨rfl, rfl⟩ := returned_eq he
    exact .op job pc act o₁ r (Operation.move_of_step hr)
  | force c pc =>
    obtain ⟨⟨o₁, r⟩, hr, he⟩ := Option.map_eq_some_iff.mp h
    obtain ⟨rfl, rfl⟩ := returned_eq he
    exact .force c pc act o₁ r (Force.move_of_step hr)
  | transaction request pc =>
    obtain ⟨⟨o₁, r⟩, hr, he⟩ := Option.map_eq_some_iff.mp h
    obtain ⟨rfl, rfl⟩ := returned_eq he
    exact .transaction request pc act o₁ r (Tx.move_of_step hr)
  | bridge request pc =>
    obtain ⟨⟨o₁, r⟩, hr, he⟩ := Option.map_eq_some_iff.mp h
    obtain ⟨rfl, rfl⟩ := returned_eq he
    exact .bridge request pc act o₁ r (Bridge.move_of_step hr)
  | close pc =>
    obtain ⟨⟨o₁, r⟩, hr, he⟩ := Option.map_eq_some_iff.mp h
    obtain ⟨rfl, rfl⟩ := returned_eq he
    exact .close pc act o₁ r (Close.move_of_step hr)

/-! ## Lending and lookup -/

theorem Operation.step_lend {a : A} {o : Owner A K} {op : Operation A} {pc : OpPc A} {c : ℕ}
    {tx : Option A} : Operation.step a o op pc (.lend c tx) = none := by
  cases pc <;> rfl

theorem Force.step_lend {a : A} {o : Owner A K} {d : ℕ} {pc : ForcePc} {c : ℕ} {tx : Option A} :
    Force.step a o d pc (.lend c tx) = none := by
  cases pc <;> rfl

/-- Only a party that is out lends. -/
theorem Party.step_lend {capacity : ℕ} {a : A} {o : Owner A K} {p : Party A} {c : ℕ} {tx : Option A}
    (hp : p ≠ .out) : Party.step capacity a o p (.lend c tx) = none := by
  cases p with
  | out => exact absurd rfl hp
  | op job pc => cases pc <;> rfl
  | force c pc => cases pc <;> rfl
  | transaction request pc => cases pc <;> simp [Party.step, Tx.step]
  | bridge request pc => cases pc <;> simp [Party.step, Bridge.step]
  | close pc => cases pc <;> rfl

/-- A lookup finds an entry of the cache, and moves it to the front. -/
theorem Owner.cacheFind_some {o o' : Owner A K} {key : K} {c : ℕ}
    (h : o.cacheFind key = (o', some c)) :
    (⟨key, c⟩ : Cached K) ∈ o.cached ∧
      o' = { o with cached := ⟨key, c⟩ :: o.cached.filter fun e => !decide (e.key = key) } := by
  simp only [Owner.cacheFind, List.partition_eq_filter_filter] at h
  split at h
  case h_1 found rest hp =>
    obtain ⟨hf, rfl⟩ := Prod.mk.inj hp
    obtain ⟨rfl, hc⟩ := Prod.mk.inj h
    obtain rfl : found.child = c := Option.some.inj hc
    have hm : found ∈ o.cached.filter fun e => decide (e.key = key) := by
      rw [hf]
      exact List.mem_singleton_self found
    obtain ⟨hmem, hk⟩ := List.mem_filter.mp hm
    obtain rfl : found.key = key := by simpa using hk
    exact ⟨hmem, rfl⟩
  case h_2 => cases h

/-! ## The gate fields -/

namespace Owner

variable {o o' : Owner A K} {a : A}

/-- The gate fields are the same, and no child changes its transaction or its request. -/
structure SameGate (o o' : Owner A K) : Prop where
  state : o'.state = o.state
  busy : o'.busy = o.busy
  lease : o'.lease = o.lease
  requestLease : o'.requestLease = o.requestLease
  tokens : o'.tokens = o.tokens
  requests : o'.requests = o.requests
  session : o'.session = o.session
  handle : o'.handle = o.handle
  disconnects : o'.disconnects = o.disconnects
  holder : o'.holder = o.holder
  overrun : o'.overrun = o.overrun
  next : o'.next = o.next
  transaction : ∀ c, (o'.children c).transaction = (o.children c).transaction
  request : ∀ c, (o'.children c).request = (o.children c).request

theorem SameGate.refl : SameGate o o := by constructor <;> simp

theorem sameGate_releaseResult {c : ℕ} : SameGate o (o.releaseResult c) := by
  constructor <;> simp [releaseResult]

theorem sameGate_reserveResult {c : ℕ} : SameGate o (o.reserveResult c) := by
  constructor <;> simp [reserveResult]

theorem sameGate_setChild {c : ℕ} {f : Child A → Child A}
    (hf : ∀ child, (f child).transaction = child.transaction ∧ (f child).request = child.request) :
    SameGate o (o.setChild c f) := by
  constructor <;> simp [setChild, Function.update_apply] <;> grind

theorem sameGate_destroyChild {c : ℕ} : SameGate o (o.destroyChild c) := by
  constructor <;> simp [destroyChild, setChild, releaseResult, Function.update_apply] <;> grind

theorem sameGate_cacheFind {key : K} : SameGate o (o.cacheFind key).1 := by
  unfold cacheFind
  split <;> constructor <;> simp

theorem sameGate_cacheAdd {capacity : ℕ} {key : K} {c : ℕ} :
    SameGate o (o.cacheAdd capacity key c).1 := by
  constructor <;> simp [cacheAdd]

theorem sameGate_cacheRemove {key : K} : SameGate o (o.cacheRemove key).1 := by
  constructor <;> simp [cacheRemove]

end Owner

theorem Wreck.step_eq {o o' : Owner A K} {w : Wreck} {r : Option Wreck} (h : w.step o = (o', r)) :
    r.isSome ∧ o.SameGate o' ∨ r = none ∧ o' = o.closeNative := by
  unfold Wreck.step at h
  split at h
  all_goals obtain ⟨rfl, rfl⟩ := Prod.mk.inj h
  case h_2 | h_5 => exact .inl ⟨rfl, Owner.sameGate_destroyChild⟩
  case h_7 => exact .inr ⟨rfl, rfl⟩
  all_goals exact .inl ⟨rfl, by constructor <;> simp⟩

theorem Wreck.sameGate {o o' : Owner A K} {w w' : Wreck} (h : w.step o = (o', some w')) :
    o.SameGate o' := by
  simpa using Wreck.step_eq h

theorem Wreck.closed {o o' : Owner A K} {w : Wreck} (h : w.step o = (o', none)) :
    o' = o.closeNative := by
  simpa using Wreck.step_eq h

end DuckdbMl.Resource
