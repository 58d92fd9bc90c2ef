import DuckdbMl.Resource.Party

/-!
# Typed requests on a shared connection

Parties that run `Request.run` on one connection next to `with_transaction` and the closes: the
lookup in the statement cache, the preparation, the validation, `cache_add`, the loan of the
statement to the call's transaction, one admitted operation for each parameter, the execution and
the use of the result, and what follows an error or an exception of any of them. Between two of
these the other parties may step. The operations and `force_close_child` are those of
`Resource.Party`.

`clock`, `stamps`, `executions` and `returns` are ghosts: when a statement last entered or was found
in the cache, what reached the engine, and what calls have returned.

## Main definitions

* `Declaration`, `Call`: a declared request and one call of it
* `Statement`, `Connection`: a prepared statement's bindings, and the shared state
* `CallPc`, `Call.start`, `Call.step`: a call's positions and its step
* `requests`: the system of all parties
-/

namespace DuckdbMl.Request

open Transition Resource

/-- What a request declares, apart from its text: `oneshot` and the number of its parameters. -/
structure Declaration where
  oneshot : Bool
  parameters : ℕ

variable (A K V : Type) (D : K → Declaration)

/-- A call of `run`, its arguments encoded. -/
structure Call where
  id : K
  args : List V
  transaction : Option A
  length : args.length = (D id).parameters

/-- The parameters of a prepared statement, `none` where `bound` is false, and whether
`prepare_cached` made it. -/
structure Statement where
  bound : List (Option V)
  cached : Bool

/-- An execution that reaches the engine: the call, what the statement's parameters hold, and the
engine's transaction. -/
structure Execution where
  call : Call A K V D
  values : List (Option V)
  session : Option (Session A)

/-- The shared state: the connection's owner, and its statements by the name of their child. -/
structure Connection where
  owner : Owner A K
  statements : ℕ → Statement V
  executions : List (Execution A K V D)
  returns : List (Call A K V D × Bool)
  clock : ℕ
  stamps : ℕ → ℕ

/-- What a call does with its statement, each in an operation of its own: `column_types` of
`validate`, `bind_scalar`, `execute_prepared`, and the fold or `close_result`. -/
inductive Use
  | prepare
  | validate
  | bind (i : ℕ)
  | execute
  | consume
deriving DecidableEq

/-- How an operation ends: `mismatch` is `Parameter_schema_changed`. -/
inductive Outcome
  | ok
  | error
  | mismatch
  | raised
deriving DecidableEq

/-- What follows the closing of statements. -/
inductive After
  | lend (c : ℕ)
  | restore (c : ℕ) (ok : Bool)
  | done (ok : Bool)

/-- The positions of a call. In `worked` the operation has returned, in `ready` the statement is
the call's to bind. -/
inductive CallPc
  | preparing (pc : OpPc A)
  | prepared (c : ℕ) (pc : OpPc A)
  | working (c : ℕ) (u : Use) (pc : OpPc A) (out : Outcome)
  | worked (c : ℕ) (u : Use) (out : Outcome)
  | adding (c : ℕ)
  | lending (c : ℕ)
  | ready (c : ℕ)
  | removing (c : ℕ)
  | restoring (c : ℕ) (ok : Bool)
  | drop (cs : List ℕ) (after : After)
  | dropping (c : ℕ) (pc : ForcePc) (cs : List ℕ) (after : After)
  | ended (ok : Bool)

/-- What a party runs: a call, or one of the other functions of `resource.ml`. -/
inductive Pc
  | party (p : Party A)
  | call (k : Call A K V D) (pc : CallPc A)

/-- The labels. `compiled` tells how many parameters the engine found, `work` the act of an
operation with its outcome if it decides it, `check` that of `check_parameters`. -/
inductive Label
  | outer (act : Act A K)
  | run (k : Call A K V D)
  | compiled (parameters : ℕ)
  | work (act : Act A K) (verdict : Option Outcome)
  | check (ok : Bool)
  | next

variable {A K V D}

/-- Exceptions abandon what was to follow; `lend_child` still takes the statement back. -/
def After.raise : After → After
  | .lend _ => .done false
  | .restore c _ => .restore c false
  | .done _ => .done false

/-- The cleanup of the statement being closed raises. -/
def raises : ForcePc → Option Outcome → Bool
  | .destroying, some .raised => true
  | _, _ => false

/-- The position after the closing of statements. -/
def After.pc : After → CallPc A
  | .lend c => .lending c
  | .restore c ok => .restoring c ok
  | .done ok => .ended ok

/-- What the work of a use requires of the engine and the statement: no result (`without_result`),
an index in range, all parameters bound. -/
def Use.permits (o : Owner A K) (c : ℕ) (bound : List (Option V)) (u : Use) :
    OpPc A → Act A K → Bool
  | .admitted, .ok =>
    match u with
    | .validate => true
    | .bind i => o.resultOwner ≠ some c && i < bound.length
    | _ => false
  | .admitted, .snapshot => u = .execute && o.resultOwner ≠ some c && bound.all Option.isSome
  | .admitted, .release => u = .consume
  | _, _ => true

/-- The outcomes that a step of the operation can decide on. -/
def Use.decides (u : Use) : OpPc A → Act A K → Outcome → Bool
  | .admitted, .ok, .ok => true
  | .admitted, .release, .ok => true
  | .executed _, .ok, .ok => true
  | .inside _, .error, .mismatch | .executed _, .error, .mismatch => u = .execute
  | _, _, .ok | _, _, .mismatch => false
  | _, _, .error | _, _, .raised => true

namespace Call

variable [DecidableEq A] [DecidableEq K] (capacity : ℕ) (k : Call A K V D)

/-- The call may use the statement cache. -/
def caches : Bool := !(D k.id).oneshot && capacity ≠ 0

/-- The call prepares its statement for the cache. -/
def populates : Bool := k.caches capacity && k.transaction.isNone

/-- `bind_all` from the parameter `i`, then `execute_prepared`. -/
def useAt (i : ℕ) : Use := if i < k.args.length then .bind i else .execute

/-- `with_statement`, up to its preparation or the loan. -/
def start (s : Connection A K V D) : Connection A K V D × CallPc A :=
  if k.caches capacity then
    match s.owner.cacheFind k.id with
    | (o, some c) =>
      ({ s with
          owner := o
          clock := s.clock + 1
          stamps := Function.update s.stamps c s.clock }, .lending c)
    | (_, none) => (s, .preparing .read)
  else (s, .preparing .read)

/-- What `with_statement` and `run` do after an operation: a statement of the call's own is closed on
every exit, a cached one is taken back. An exception of `validated` leaves a cached one as it is. -/
def follow (cached : Bool) (c : ℕ) : Use → Outcome → CallPc A
  | .validate, .ok => if cached then .adding c else .ready c
  | .validate, .raised => if cached then .ended false else .drop [c] (.done false)
  | .validate, _ => .drop [c] (.done false)
  | .bind i, .ok => .working c (k.useAt (i + 1)) .read .error
  | .execute, .ok => .working c .consume .read .error
  | _, out =>
    if cached then (if out = .mismatch then .removing c else .restoring c (out = .ok))
    else .drop [c] (.done (out = .ok))

/-- What a step of an operation does to the statement: `bind_scalar` clears the parameter and sets it
when the engine has taken the value. -/
def bind (u : Use) (pc : OpPc A) (act : Act A K) (verdict : Option Outcome) (st : Statement V) :
    Statement V :=
  match u, pc, act with
  | .bind i, .admitted, .ok =>
    { st with bound := st.bound.set i (if verdict = some .ok then k.args[i]? else none) }
  | _, _, _ => st

/-- `F.execute_prepared` -/
def executes (s : Connection A K V D) (c : ℕ) : OpPc A → List (Execution A K V D)
  | .inside _ => [⟨k, (s.statements c).bound, s.owner.session⟩]
  | _ => []

/-- **A call's step.** -/
def step (a : A) (s : Connection A K V D) :
    CallPc A → Label A K V D → Option (Connection A K V D × CallPc A)
  | .preparing pc, .compiled n =>
    let statement : Statement V := ⟨List.replicate n none, k.populates capacity⟩
    match pc with
    | .admitted =>
      some ({ s with
        owner := s.owner.registerChild none k.transaction (k.populates capacity)
        statements := Function.update s.statements s.owner.next statement },
        .prepared s.owner.next .finish)
    | _ => none
  | .preparing pc, .work act _ =>
    match act with
    | .register _ => none
    | _ =>
      (Operation.step a s.owner (.plain none k.transaction) pc act).map fun r =>
        ({ s with owner := r.1 }, r.2.elim (.ended false) .preparing)
  | .prepared c pc, .work act _ =>
    match act with
    | .register _ => none
    | _ =>
      (Operation.step a s.owner (.plain none k.transaction) pc act).map fun r =>
        ({ s with owner := r.1 }, r.2.elim (.worked c .prepare .ok) (.prepared c))
  | .worked c .prepare .ok, .check ok =>
    if !ok then some (s, .worked c .validate .error)
    else if (s.statements c).bound.length = (D k.id).parameters then
      some (s, .working c .validate .read .error)
    else none
  | .working c u pc out, .work act verdict =>
    if u.permits s.owner c (s.statements c).bound pc act && verdict.all (u.decides pc act) then
      (Operation.step a s.owner (.child c true) pc act).map fun r =>
        ({ s with
          owner := r.1
          statements :=
            Function.update s.statements c (k.bind u pc act verdict (s.statements c))
          executions := k.executes s c pc ++ s.executions },
          r.2.elim (.worked c u (verdict.getD out)) fun pc' =>
            .working c u pc' (verdict.getD out))
    else none
  | .worked c u out, .next =>
    if u = .prepare then none else some (s, k.follow (s.statements c).cached c u out)
  -- `close_result` of a closed result is done.
  | .worked c .execute .ok, .check true =>
    if s.owner.resultOwner = some c then none else some (s, .worked c .consume .ok)
  | .adding c, .next =>
    let r := s.owner.cacheAdd capacity k.id c
    some ({ s with
      owner := r.1
      clock := s.clock + 1
      stamps := Function.update s.stamps c s.clock }, .drop r.2 (.lend c))
  | .lending c, .next => some ({ s with owner := s.owner.lendChild c k.transaction }, .ready c)
  | .ready c, .next => some (s, .working c (k.useAt 0) .read .error)
  | .removing c, .next =>
    let r := s.owner.cacheRemove k.id
    some ({ s with owner := r.1 }, .drop r.2 (.restore c false))
  | .restoring c ok, .next => some ({ s with owner := s.owner.lendChild c none }, .ended ok)
  | .drop (c :: cs) after, .next =>
    let r := Force.start s.owner c
    some ({ s with owner := r.1 },
      r.2.elim (.drop cs after) fun pc => .dropping c pc cs after)
  | .drop [] after, .next => some (s, after.pc)
  | .dropping c pc cs after, .work act verdict =>
    (Force.step a s.owner c pc act).map fun r =>
      let cs' := if raises pc verdict then [] else cs
      let after' := if raises pc verdict then after.raise else after
      ({ s with owner := r.1 },
        r.2.elim (.drop cs' after') fun pc' => .dropping c pc' cs' after')
  | _, _ => none

end Call

section system

variable [DecidableEq A] [DecidableEq K] (capacity : ℕ)

/-- What the parties run besides calls: transactions and closes. -/
def outside : Act A K → Bool
  | .transaction none | .close | .forceClose | .revoke => true
  | _ => false

/-- A call names a transaction once its callback has it. -/
def Call.named (o : Owner A K) (k : Call A K V D) : Bool :=
  k.transaction.all fun x => o.tokens x ≠ .unused ∧ o.tokens x ≠ .starting

/-- **A party's step.** -/
def Pc.step (a : A) (s : Connection A K V D) :
    Pc A K V D → Label A K V D → Option (Connection A K V D × Pc A K V D)
  | .party .out, .run k =>
    if k.named s.owner then
      let r := k.start capacity s
      some (r.1, .call k r.2)
    else none
  | .party .out, .outer act =>
    if outside act then
      (Party.step capacity a s.owner .out act).map fun r => ({ s with owner := r.1 }, .party r.2)
    else none
  | .party p, .outer act =>
    (Party.step capacity a s.owner p act).map fun r => ({ s with owner := r.1 }, .party r.2)
  | .call k (.ended ok), .next => some ({ s with returns := (k, ok) :: s.returns }, .party .out)
  | .call k pc, l => (k.step capacity a s pc l).map fun r => (r.1, .call k r.2)
  | _, _ => none

/-- A connection just opened. -/
def Connection.fresh : Connection A K V D where
  owner := Owner.fresh
  statements := fun _ => ⟨[], false⟩
  executions := []
  returns := []
  clock := 0
  stamps := fun _ => 0

variable (A K V D)

/-- **All parties of one connection** whose database caches `capacity` statements. -/
def requests : Interleaving (Connection A K V D) A (Pc A K V D) (Label A K V D) where
  start s := s = Connection.fresh
  idle := .party .out
  step := Pc.step capacity

end system

end DuckdbMl.Request
