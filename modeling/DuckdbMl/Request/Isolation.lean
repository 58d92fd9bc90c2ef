import DuckdbMl.Request.Move

/-!
# Isolation of the requests that share a connection

What a call's execution runs with, and in which of the engine's transactions. Each operation of a
call is admitted by itself, and nothing but the loan in `lend_child` says whose a cached statement
is in between; the executions are the calls' own as long as a lookup finds only statements that no
other running call works with.

## Main definitions

* `Execution.Isolated`: the call's own arguments, in the session the call names
* `Unshared`: a lookup finds no statement that another running call works with
* `CallPc.Knows`: what a call knows of its statement
* `Secluded`: the invariant

## Main results

* `secluded_of_reachable`, `execution_isolated`: every execution is isolated, in every unshared run
* `execution_shared`: runs that share a statement, and what they execute
-/

set_option linter.unusedSectionVars false

namespace DuckdbMl.Request

open Transition Resource

variable {A K V : Type} {D : K → Declaration} [DecidableEq A] [DecidableEq K] {capacity : ℕ}

/-- The session that a call names: no user's transaction for a plain call (the statement runs in the
connection's own), its transaction's for the others. -/
def Call.session (k : Call A K V D) : Session A := k.transaction.elim .internal .explicit

/-- The execution runs with its call's arguments, in the session the call names. -/
def Execution.Isolated (e : Execution A K V D) : Prop :=
  e.values = e.call.args.map some ∧ e.session = some e.call.session

/-- A lookup finds no statement that another running call works with. -/
def Unshared (w : World (Connection A K V D) A (Pc A K V D)) (l : A × Label A K V D) : Prop :=
  ∀ k, l.2 = .run k → ∀ c, (w.shared.owner.cacheFind k.id).2 = some c →
    ∀ b, (w.parties b).statement ≠ some c

/-! ## What a call knows -/

/-- The call has executed. -/
def Connection.Executed (s : Connection A K V D) (k : Call A K V D) : Prop :=
  ∃ e ∈ s.executions, e.call = k

section knows

variable (k : Call A K V D) (s : Connection A K V D) (c : ℕ)

/-- The statement is the call's transaction's. -/
def Call.Lent : Prop := (s.owner.children c).transaction = k.transaction

/-- The statement has the parameters that the request declares. -/
def Call.Fits : Prop := (s.statements c).bound.length = k.args.length

/-- The first `i` parameters hold the call's arguments. -/
def Call.Bound (i : ℕ) : Prop := (s.statements c).bound.take i = (k.args.take i).map some

def Use.Knows : Use → Prop
  | .prepare => k.Lent s c
  | .validate => k.Lent s c ∧ k.Fits s c
  | .bind i => k.Lent s c ∧ k.Fits s c ∧ i < k.args.length ∧ k.Bound s c i
  | .execute => k.Lent s c ∧ k.Fits s c ∧ k.Bound s c k.args.length
  | .consume => k.Lent s c ∧ s.Executed k

/-- What a call knows once the operation is done. -/
def Use.Done : Use → Prop
  | .prepare => k.Lent s c
  | .validate => k.Lent s c ∧ k.Fits s c
  | .bind i => k.Lent s c ∧ k.Fits s c ∧ k.Bound s c (i + 1)
  | .execute => k.Lent s c ∧ s.Executed k
  | .consume => s.Executed k

def After.Knows : After → Prop
  | .lend c => k.Fits s c
  | .restore _ ok | .done ok => ok = true → s.Executed k

end knows

/-- The operation's work has been done. -/
def past : OpPc A → Bool
  | .read | .enter _ | .admitted => false
  | _ => true

/-- Only an execution takes a snapshot. -/
def snapshot : OpPc A → Bool
  | .begin | .inside _ | .executed _ => true
  | _ => false

def hasExecuted : OpPc A → Bool
  | .executed _ => true
  | _ => false

/-- **What a call knows at its position.** -/
def CallPc.Knows (k : Call A K V D) (s : Connection A K V D) : CallPc A → Prop
  | .preparing _ | .removing _ => True
  | .prepared c _ => k.Lent s c
  | .working c u pc out => u.Knows k s c ∧ (out = .ok → past pc = true ∧ u.Done k s c) ∧
      (snapshot pc = true → u = .execute) ∧ (hasExecuted pc = true → s.Executed k)
  | .worked c u out => out = .ok → u.Done k s c
  | .adding c | .lending c => k.Fits s c
  | .ready c => k.Lent s c ∧ k.Fits s c
  | .restoring _ ok | .ended ok => ok = true → s.Executed k
  | .drop _ after | .dropping _ _ _ after => after.Knows k s

/-! ## What the others leave a call -/

/-- The statement and the transaction it is lent to are as before. -/
def Untouched (s s' : Connection A K V D) (c : ℕ) : Prop :=
  s'.statements c = s.statements c ∧
    (s'.owner.children c).transaction = (s.owner.children c).transaction

section stable

variable {k : Call A K V D} {s s' : Connection A K V D} {c : ℕ}

theorem Connection.Executed.mono (he : s.executions ⊆ s'.executions) (h : s.Executed k) :
    s'.Executed k := by
  obtain ⟨e, hm, hk⟩ := h
  exact ⟨e, he hm, hk⟩

theorem Use.Knows.stable {u : Use} (h : u.Knows k s c) (hf : Untouched s s' c)
    (he : s.executions ⊆ s'.executions) : u.Knows k s' c := by
  cases u <;>
    simp only [Use.Knows, Call.Lent, Call.Fits, Call.Bound, hf.1, hf.2] at h ⊢
  case consume => exact ⟨h.1, h.2.mono he⟩
  all_goals exact h

theorem Use.Done.stable {u : Use} (h : u.Done k s c) (hf : Untouched s s' c)
    (he : s.executions ⊆ s'.executions) : u.Done k s' c := by
  cases u <;>
    simp only [Use.Done, Call.Lent, Call.Fits, Call.Bound, hf.1, hf.2] at h ⊢
  case execute => exact ⟨h.1, h.2.mono he⟩
  case consume => exact h.mono he
  all_goals exact h

theorem After.Knows.stable {after : After} (h : after.Knows k s)
    (hf : ∀ c, after.statement = some c → Untouched s s' c)
    (he : s.executions ⊆ s'.executions) : after.Knows k s' := by
  cases after with
  | lend c =>
    have hf := hf c rfl
    simpa only [After.Knows, Call.Fits, hf.1] using h
  | restore c ok => exact fun ho => (h ho).mono he
  | done ok => exact fun ho => (h ho).mono he

theorem CallPc.Knows.stable {pc : CallPc A} (h : pc.Knows k s)
    (hf : ∀ c, pc.statement = some c → Untouched s s' c)
    (he : s.executions ⊆ s'.executions) : pc.Knows k s' := by
  cases pc with
  | preparing pc => trivial
  | removing c => trivial
  -- what is known of a statement is known of its lending and of its values
  | prepared c pc =>
    have hf := hf c rfl
    simpa only [CallPc.Knows, Call.Lent, hf.1, hf.2] using h
  | working c u pc out =>
    obtain ⟨hu, ho, hs, hx⟩ := h
    exact ⟨hu.stable (hf c rfl) he, fun h => ⟨(ho h).1, (ho h).2.stable (hf c rfl) he⟩, hs,
      fun h => (hx h).mono he⟩
  | worked c u out => exact fun ho => (h ho).stable (hf c rfl) he
  | adding c =>
    have hf := hf c rfl
    simpa only [CallPc.Knows, Call.Fits, hf.1] using h
  | lending c =>
    have hf := hf c rfl
    simpa only [CallPc.Knows, Call.Fits, hf.1] using h
  | ready c =>
    have hf := hf c rfl
    simpa only [CallPc.Knows, Call.Fits, Call.Lent, hf.1, hf.2] using h
  | restoring c ok => exact fun ho => (h ho).mono he
  | ended ok => exact fun ho => (h ho).mono he
  | drop cs after => exact After.Knows.stable h hf he
  | dropping c pc cs after => exact After.Knows.stable h hf he

end stable

/-- A step touches the statement its call works with, and registers new ones. -/
theorem Pc.Move.untouched {a : A} {s s' : Connection A K V D} {p p' : Pc A K V D}
    {l : Label A K V D} (h : Pc.Move capacity a s p l s' p') (hk : p.Known s.owner) {c : ℕ}
    (hc : c < s.owner.next) (hp : p.statement ≠ some c) : Untouched s s' c := by
  constructor
  · cases h with
    | run k hn =>
      obtain ⟨d, -, -, hs⟩ | hs := k.start_cases capacity s <;> rw [hs]
    | party p act o p' hm _ _ => rfl
    | «return» k ok => rfl
    | call k pc l s' pc' hm =>
      cases hm
      case compile n => exact Function.update_of_ne (Nat.ne_of_lt hc) _ _
      case work d u pc out act v o r _ _ _ _ =>
        refine Function.update_of_ne ?_ _ _
        rintro rfl
        exact hp rfl
      all_goals rfl
  · obtain ⟨ho, -⟩ | ⟨act, hm, hl⟩ := h.sees hk
    · rw [ho]
    · refine hm.retains.transaction c hc ?_
      rintro ⟨tx, ht⟩
      exact hp (hl c tx ht).1

theorem Pc.Move.executions {a : A} {s s' : Connection A K V D} {p p' : Pc A K V D}
    {l : Label A K V D} (h : Pc.Move capacity a s p l s' p') : s.executions ⊆ s'.executions := by
  cases h with
  | run k hn => obtain ⟨d, -, -, hs⟩ | hs := k.start_cases capacity s <;> rw [hs] <;> exact fun _ h => h
  | party p act o p' hm _ _ => exact fun _ h => h
  | «return» k ok => exact fun _ h => h
  | call k pc l s' pc' hm =>
    cases hm
    case work => exact List.subset_append_right _ _
    all_goals exact fun _ h => h

/-! ## What a call knows after its own step -/

section positions

variable {a : A} {o o' : Owner A K} {op : Resource.Operation A} {pc pc' : OpPc A} {act : Act A K}

theorem past_of_move (h : op.Move a o pc act o' (some pc')) (hp : past pc = true) :
    past pc' = true := by
  cases h <;> simp_all [past]

theorem past_of_decides {u : Use} (h : op.Move a o pc act o' (some pc'))
    (hd : u.decides pc act .ok = true) : past pc' = true := by
  cases h <;> simp_all [past, Use.decides]

theorem snapshot_of_move (h : op.Move a o pc act o' (some pc')) (hs : snapshot pc' = true) :
    snapshot pc = true ∨ pc = .admitted ∧ act = .snapshot := by
  cases h <;> simp_all [snapshot]

theorem inside_of_hasExecuted (h : op.Move a o pc act o' (some pc'))
    (hx : hasExecuted pc' = true) : ∃ own, pc = .inside own := by
  cases h <;> simp_all [hasExecuted]

end positions

section own

variable {a : A} {k : Call A K V D} {s : Connection A K V D} {c : ℕ} {u : Use} {pc : OpPc A}
  {act : Act A K} {v : Option Outcome}

theorem Call.bind_of_past {st : Statement V} (h : past pc = true) : k.bind u pc act v st = st := by
  cases pc <;> simp_all [past, Call.bind]

theorem Call.bind_cached {st : Statement V} : (k.bind u pc act v st).cached = st.cached := by
  unfold Call.bind
  split <;> rfl

theorem Call.bind_length {st : Statement V} :
    (k.bind u pc act v st).bound.length = st.bound.length := by
  unfold Call.bind
  split <;> simp

/-- A bind leaves the parameters before its own. -/
theorem Call.bind_take {st : Statement V} {i : ℕ} (hu : ∀ j, u = .bind j → i ≤ j) :
    (k.bind u pc act v st).bound.take i = st.bound.take i := by
  unfold Call.bind
  split
  case h_1 j => exact List.take_set_of_le (hu j rfl)
  case h_2 => rfl

/-- A bind that succeeds sets its parameter to the call's argument. -/
theorem Call.bind_ok {st : Statement V} {i : ℕ} (hi : i < k.args.length)
    (hl : st.bound.length = k.args.length) (hb : st.bound.take i = (k.args.take i).map some) :
    (k.bind (A := A) (.bind i) .admitted (.ok : Act A K) (some .ok) st).bound.take (i + 1) =
      (k.args.take (i + 1)).map some := by
  simp only [Call.bind, if_true]
  rw [List.take_succ_eq_append_getElem (by simpa [hl] using hi),
    List.take_set_of_le (Nat.le_refl i), hb, List.take_succ_eq_append_getElem hi, List.map_append]
  simp [hi]

/-- The shared state after an operation's step. -/
def Call.worked (k : Call A K V D) (s : Connection A K V D) (c : ℕ) (u : Use) (pc : OpPc A)
    (act : Act A K) (v : Option Outcome) (o : Owner A K) : Connection A K V D :=
  { s with
    owner := o
    statements := Function.update s.statements c (k.bind u pc act v (s.statements c))
    executions := k.executes s c pc ++ s.executions }

theorem Call.worked_statements {o : Owner A K} :
    (k.worked s c u pc act v o).statements c = k.bind u pc act v (s.statements c) :=
  Function.update_self ..

theorem Call.worked_executed {o : Owner A K} (h : s.Executed k) :
    (k.worked s c u pc act v o).Executed k :=
  h.mono (List.subset_append_right _ _)

/-- An operation's step keeps what its use knows. -/
theorem Use.Knows.worked {o : Owner A K} (h : u.Knows k s c)
    (ht : (o.children c).transaction = (s.owner.children c).transaction) :
    u.Knows k (k.worked s c u pc act v o) c := by
  have take : ∀ i, (∀ j, u = .bind j → i ≤ j) →
      (k.bind u pc act v (s.statements c)).bound.take i = (s.statements c).bound.take i :=
    fun i hi => Call.bind_take hi
  have lent : (k.worked s c u pc act v o).owner = o := rfl
  cases u with
  | prepare => simpa only [Use.Knows, Call.Lent, lent, ht] using h
  | validate =>
    simpa only [Use.Knows, Call.Lent, Call.Fits, Call.worked_statements,
      Call.bind_cached, Call.bind_length, lent, ht] using h
  | bind i =>
    simpa only [Use.Knows, Call.Lent, Call.Fits, Call.Bound, Call.worked_statements,
      Call.bind_length, lent, ht, take i (by simp)] using h
  | execute =>
    simpa only [Use.Knows, Call.Lent, Call.Fits, Call.Bound, Call.worked_statements,
      Call.bind_length, lent, ht, take _ (by simp : ∀ j, Use.execute = .bind j → _)] using h
  | consume =>
    refine ⟨?_, Call.worked_executed h.2⟩
    simpa only [Call.Lent, lent, ht] using h.1

theorem Use.Done.worked {o : Owner A K} (h : u.Done k s c) (hp : past pc = true)
    (ht : (o.children c).transaction = (s.owner.children c).transaction) :
    u.Done k (k.worked s c u pc act v o) c := by
  refine h.stable ⟨?_, ht⟩ (List.subset_append_right _ _)
  rw [Call.worked_statements, Call.bind_of_past hp]

/-- An operation that decides on success has done its use. -/
theorem Use.Knows.done {o : Owner A K} (h : u.Knows k s c)
    (ht : (o.children c).transaction = (s.owner.children c).transaction)
    (hp : u.permits s.owner c (s.statements c).bound pc act = true)
    (hd : u.decides pc act .ok = true) (hs : snapshot pc = true → u = .execute)
    (hx : hasExecuted pc = true → s.Executed k) :
    u.Done k (k.worked s c u pc act (some .ok) o) c := by
  unfold Use.decides at hd
  split at hd
  -- a validation, or the binding of a value
  case h_1 =>
    cases u with
    | validate => exact h.worked ht
    | bind i =>
      obtain ⟨hl, hf, hi, hb⟩ := h
      refine ⟨?_, ?_, ?_⟩
      · simpa only [Call.Lent, Call.worked, ht] using hl
      · simpa only [Call.Fits, Call.worked_statements, Call.bind_length] using hf
      · rw [Call.Bound, Call.worked_statements]
        exact Call.bind_ok hi hf hb
    | prepare => simp [Use.permits] at hp
    | execute => simp [Use.permits] at hp
    | consume => simp [Use.permits] at hp
  -- the consumption of a result that has been executed
  case h_2 =>
    obtain rfl : u = .consume := by simpa [Use.permits] using hp
    exact Call.worked_executed h.2
  -- the execution itself, which is in the log now
  case h_3 own =>
    obtain rfl : u = .execute := hs rfl
    refine ⟨?_, Call.worked_executed (hx rfl)⟩
    simpa only [Call.Lent, Call.worked, ht] using h.1
  all_goals simp_all

theorem Call.useAt_knows {i : ℕ} (hl : k.Lent s c) (hf : k.Fits s c) (hb : k.Bound s c i) :
    (k.useAt i).Knows k s c := by
  unfold Call.useAt
  split
  case isTrue hi => exact ⟨hl, hf, hi, hb⟩
  case isFalse hi =>
    refine ⟨hl, hf, ?_⟩
    have hi : k.args.length ≤ i := Nat.le_of_not_lt hi
    have hbl : (s.statements c).bound.length ≤ i := hf.symm ▸ hi
    have hbl' : (s.statements c).bound.length ≤ k.args.length := Nat.le_of_eq hf
    simpa only [Call.Bound, List.take_of_length_le hi, List.take_of_length_le hbl,
      List.take_of_length_le hbl', List.take_length] using hb

theorem Call.read_knows (hu : u.Knows k s c) :
    (CallPc.working c u .read .error : CallPc A).Knows k s :=
  ⟨hu, by simp, by simp [snapshot], by simp [hasExecuted]⟩

/-- What follows an operation that its call knows to be done. -/
theorem Call.follow_knows {out : Outcome} (hd : out = .ok → u.Done k s c) (hu : u ≠ .prepare) :
    (k.follow (A := A) (s.statements c).cached c u out).Knows k s := by
  unfold Call.follow
  split
  -- after the validation the statement is cached, or used at once
  case h_1 =>
    split
    case isTrue => exact (hd rfl).2
    case isFalse => exact hd rfl
  case h_2 => split <;> intro h <;> cases h
  case h_3 => intro h; cases h
  -- after a value the next one is bound
  case h_4 i =>
    obtain ⟨hl, hf, hb⟩ := hd rfl
    exact Call.read_knows (Call.useAt_knows hl hf hb)
  case h_5 => exact Call.read_knows (hd rfl)
  -- after the execution the call ends
  case h_6 hv _ _ hb he =>
    have executed : decide (out = .ok) = true → s.Executed k := by
      intro h
      obtain rfl : out = .ok := by simpa using h
      cases u with
      | consume => exact hd rfl
      | prepare => exact absurd rfl hu
      | validate => simp at hv
      | bind i => simp at hb
      | execute => simp at he
    repeat' split
    · trivial
    · exact executed
    · exact executed

theorem Use.Knows.lent (h : u.Knows k s c) : k.Lent s c := by
  cases u with
  | prepare => exact h
  | validate => exact h.1
  | bind i => exact h.1
  | execute => exact h.1
  | consume => exact h.1

/-- **A call's step keeps what it knows.** -/
theorem Call.Move.knows {s' : Connection A K V D} {pc pc' : CallPc A} {l : Label A K V D}
    (h : k.Move capacity a s pc l s' pc') (hk : pc.Knows k s)
    (hn : ∀ c, pc.statement = some c → c < s.owner.next) : pc'.Knows k s' := by
  cases h
  case compile n =>
    cases ht : k.transaction <;>
      simp [CallPc.Knows, Call.Lent, Owner.registerChild, Call.populates, ht]
  case prepare pc act v o r hm _ _ =>
    cases r with
    | none => intro h; cases h
    | some pc' => trivial
  -- the statement is lent to the transaction of the call, and stays so
  case prepared c pc act v o r hm _ _ =>
    have hs : k.Lent { s with owner := o } c :=
      ((hm.retains (L := fun _ => False)).transaction c (hn c rfl) fun h => h).trans hk
    cases r with
    | none => exact fun _ => hs
    | some pc' => exact hs
  case refuse => intro h; cases h
  case validate c hl => exact Call.read_knows ⟨hk rfl, hl.trans k.length.symm⟩
  -- an operation that has decided `Ok` has done its part on the statement
  case work c u pc out act v o r hp hv hm _ =>
    obtain ⟨hu, ho, hs, hx⟩ := hk
    have ht : (o.children c).transaction = (s.owner.children c).transaction :=
      (hm.retains (L := fun _ => False)).transaction c (hn c rfl) fun h => h
    have done : v.getD out = .ok → u.Done k (k.worked s c u pc act v o) c := by
      intro hok
      cases v with
      | none => exact (ho hok).2.worked (ho hok).1 ht
      | some x =>
        obtain rfl : x = .ok := hok
        exact hu.done ht hp (hv _ rfl) hs hx
    cases r with
    | none => exact done
    | some pc' =>
      refine ⟨hu.worked ht, fun hok => ⟨?_, done hok⟩, fun hs' => ?_, fun hx' => ?_⟩
      · cases v with
        | none => exact past_of_move hm (ho hok).1
        | some x =>
          obtain rfl : x = .ok := hok
          exact past_of_decides hm (hv _ rfl)
      · obtain h | ⟨rfl, rfl⟩ := snapshot_of_move hm hs'
        · exact hs h
        · simp only [Use.permits, Bool.and_eq_true, decide_eq_true_eq] at hp
          exact hp.1.1
      · obtain ⟨own, rfl⟩ := inside_of_hasExecuted hm hx'
        exact ⟨_, List.mem_append_left _ (List.mem_singleton_self _), rfl⟩
  case follow c u out hu => exact Call.follow_knows hk hu
  case skip c _ => exact fun _ => (hk rfl).2
  case add c => exact hk
  case lend c => exact ⟨by simp [Call.Lent, Owner.lendChild, Owner.setChild], hk⟩
  case ready c =>
    exact Call.read_knows (Call.useAt_knows hk.1 hk.2 (by simp [Call.Bound]))
  case remove c => intro h; cases h
  case restore c ok => exact hk
  case gone c cs after _ => exact hk
  case force c cs after _ => exact hk
  case dropped after => cases after <;> exact hk
  -- an exception while closing replaces the outcome of the call
  case close c pc cs after act v o r cs' after' hm _ hc =>
    have ha : after'.Knows k { s with owner := o } := by
      obtain ⟨-, rfl⟩ | ⟨-, -, rfl⟩ := hc
      · cases after' <;> exact hk
      · cases after <;> intro h <;> cases h
    cases r with
    | none => exact ha
    | some pc' => exact ha

end own

/-! ## What a step adds -/

section adds

variable {a : A} {s s' : Connection A K V D} {p p' : Pc A K V D} {l : Label A K V D}

/-- A statement keeps the number of its parameters. -/
theorem Pc.Move.length (h : Pc.Move capacity a s p l s' p') {c : ℕ} (hc : c < s.owner.next) :
    (s'.statements c).bound.length = (s.statements c).bound.length := by
  cases h with
  | run k hn => obtain ⟨d, -, -, hs⟩ | hs := k.start_cases capacity s <;> rw [hs]
  | party => rfl
  | «return» => rfl
  | call k pc l s' pc' hm =>
    cases hm
    case compile n => simp [Nat.ne_of_lt hc]
    case work d u pc out act v o r _ _ _ _ =>
      by_cases hd : c = d
      · subst hd
        simp [Call.bind_length]
      · simp [hd]
    all_goals rfl

/-- Only `execute_prepared` reaches the engine. -/
theorem Pc.Move.execution (h : Pc.Move capacity a s p l s' p') {e : Execution A K V D}
    (he : e ∈ s'.executions) : e ∈ s.executions ∨
      ∃ k c u own out, p = .call k (.working c u (.inside own) out) ∧
        e = ⟨k, (s.statements c).bound, s.owner.session⟩ := by
  cases h with
  | run k hn =>
    obtain ⟨d, -, -, hs⟩ | hs := k.start_cases capacity s <;> rw [hs] at he <;>
      exact .inl he
  | party => exact .inl he
  | «return» => exact .inl he
  | call k pc l s' pc' hm =>
    cases hm
    case work c u pc out act v o r _ _ _ _ =>
      obtain he | he := List.mem_append.mp he
      · cases pc <;> simp only [Call.executes, List.mem_singleton, List.not_mem_nil] at he
        exact .inr ⟨k, c, u, _, out, rfl, he⟩
      · exact .inl he
    all_goals exact .inl he

theorem Pc.Move.returns (h : Pc.Move capacity a s p l s' p') {k : Call A K V D} {ok : Bool}
    (hr : (k, ok) ∈ s'.returns) : (k, ok) ∈ s.returns ∨ p = .call k (.ended ok) := by
  cases h with
  | run k hn =>
    obtain ⟨d, -, -, hs⟩ | hs := k.start_cases capacity s <;> rw [hs] at hr <;>
      exact .inl hr
  | party => exact .inl hr
  | «return» k' ok' =>
    obtain h | h := List.mem_cons.mp hr
    · obtain ⟨rfl, rfl⟩ := Prod.mk.inj h
      exact .inr rfl
    · exact .inl h
  | call k pc l s' pc' hm => cases hm <;> exact .inl hr

end adds

/-! ## The system -/

/-- What the connection sees of the parties. -/
def connectionOf (w : World (Connection A K V D) A (Pc A K V D)) :
    World (Owner A K) A (Party A) :=
  ⟨w.shared.owner, fun a => (w.parties a).asParty⟩

/-- **The invariant**: calls work with different statements, each knows its own, and what they have
executed is isolated. -/
structure Secluded (w : World (Connection A K V D) A (Pc A K V D)) : Prop where
  modular : Interleaving.Modular Shared Party.Knows (connectionOf w)
  unleased : w.shared.owner.requestLease = none
  registered : Registered w
  exclusive : ∀ a b c, (w.parties a).statement = some c → (w.parties b).statement = some c → a = b
  cached : ∀ e ∈ w.shared.owner.cached,
    (w.shared.statements e.child).bound.length = (D e.key).parameters
  knows : ∀ a k pc, w.parties a = .call k pc → pc.Knows k w.shared
  isolated : ∀ e ∈ w.shared.executions, e.Isolated
  returned : ∀ k, (k, true) ∈ w.shared.returns → w.shared.Executed k

section step

variable {w : World (Connection A K V D) A (Pc A K V D)} {a : A} {l : Label A K V D}
  {s' : Connection A K V D} {p' : Pc A K V D}

/-- Only a call relies on the transaction a statement is lent to. -/
theorem Pc.Plain.statement_of_relies {p : Pc A K V D} (hp : p.Plain) {c : ℕ}
    (h : p.asParty.relies c) : p.statement = some c ∧ p.asParty ≠ .out := by
  obtain ⟨allowResult, pc, hpc, -⟩ := h
  cases p with
  | party q =>
    obtain rfl : q = _ := hpc
    exact (hp _ rfl).elim
  | call k pc => cases pc <;> simp_all [Pc.asParty, CallPc.asParty, Pc.statement, CallPc.statement]

theorem modular_step (hw : Secluded w) (hm : Pc.Move capacity a w.shared (w.parties a) l s' p') :
    Interleaving.Modular Shared Party.Knows
      (connectionOf ⟨s', Function.update w.parties a p'⟩) := by
  obtain ⟨ho, hp⟩ | ⟨act, hp, hl⟩ := hm.sees (hw.registered.known a)
  -- what resource.ml sees has not changed
  · refine ⟨by simpa [connectionOf, ho] using hw.modular.shared, fun b => ?_⟩
    have hb := hw.modular.local_ b
    by_cases h : b = a
    · subst h
      simpa [connectionOf, ho, hp] using hb
    · simpa [connectionOf, ho, h] using hb
  -- a child is lent by the party that uses it alone
  · have hu : Undisturbed (connectionOf w) (a, act) := by
      intro c tx hact b hb
      obtain ⟨hs, hout⟩ := hl c tx hact
      obtain ⟨hsb, hne⟩ := (hw.registered.plain b).statement_of_relies hb
      obtain rfl := hw.exclusive a b c hs hsb
      exact hne hout
    have hc : Courteous (connectionOf w) (a, act) := by
      intro c _ r hr
      simp [connectionOf, hw.unleased] at hr
    obtain ⟨hs, hown, hothers⟩ := knows_step (l := (a, act)) hw.modular hu hc hp
    refine ⟨hs, fun b => ?_⟩
    by_cases h : b = a
    · subst h
      simpa [connectionOf] using hown
    · simpa [connectionOf, h] using hothers b h

/-- What the call that moves comes to work with, no other works with. -/
theorem fresh_step (hw : Secluded w) (hu : Unshared w (a, l))
    (hm : Pc.Move capacity a w.shared (w.parties a) l s' p') {b : A} {c : ℕ}
    (hc : p'.statement = some c) (hb : (w.parties b).statement = some c) : b = a := by
  obtain hc | ⟨rfl, -⟩ | ⟨k, hl, -, -, hf⟩ := hm.statement hc
  · exact hw.exclusive b a c hb hc
  · exact absurd ((hw.registered.known b).statement _ hb) (Nat.lt_irrefl _)
  · exact absurd hb (hu k hl c hf b)

theorem exclusive_step (hw : Secluded w) (hu : Unshared w (a, l))
    (hm : Pc.Move capacity a w.shared (w.parties a) l s' p') (b b' : A) (c : ℕ)
    (hb : (Function.update w.parties a p' b).statement = some c)
    (hb' : (Function.update w.parties a p' b').statement = some c) : b = b' := by
  by_cases h : b = a
  · subst h
    by_cases h' : b' = b
    · exact h'.symm
    · rw [Function.update_self] at hb
      rw [Function.update_of_ne h'] at hb'
      exact (fresh_step hw hu hm hb hb').symm
  · rw [Function.update_of_ne h] at hb
    by_cases h' : b' = a
    · subst h'
      rw [Function.update_self] at hb'
      exact fresh_step hw hu hm hb' hb
    · rw [Function.update_of_ne h'] at hb'
      exact hw.exclusive b b' c hb hb'

theorem cached_step (hw : Secluded w) (hm : Pc.Move capacity a w.shared (w.parties a) l s' p')
    (e : Cached K) (he : e ∈ s'.owner.cached) :
    (s'.statements e.child).bound.length = (D e.key).parameters := by
  obtain he | ⟨k, c, hp, rfl⟩ := hm.cached (hw.registered.plain a) he
  · exact (hm.length (hw.registered.cached e he)).trans (hw.cached e he)
  · have hn : c < w.shared.owner.next := (hw.registered.known a).statement c (by rw [hp]; rfl)
    have hf : k.Fits w.shared c := by
      have hk := hw.knows a k _ hp
      exact hk
    exact (hm.length hn).trans (Eq.trans hf k.length)

/-- What the call that moves knows. -/
theorem own_step (hw : Secluded w) (hm : Pc.Move capacity a w.shared (w.parties a) l s' p')
    {k : Call A K V D} {pc : CallPc A} (hp : p' = .call k pc) : pc.Knows k s' := by
  have hknown := hw.registered.known a
  have hknows := hw.knows a
  generalize w.parties a = p at hm hknown hknows
  cases hm with
  | run k' hn =>
    obtain ⟨rfl, rfl⟩ := Pc.call.inj hp
    obtain ⟨c, -, hf, hs⟩ | hs := k'.start_cases capacity w.shared <;> rw [hs]
    · have he := (Owner.cacheFind_some (Prod.ext rfl hf)).1
      exact (hw.cached _ he).trans k'.length.symm
    · trivial
  | party => cases hp
  | call k' pc₀ l s' pc' hm =>
    obtain ⟨rfl, rfl⟩ := Pc.call.inj hp
    exact hm.knows (hknows k' pc₀ rfl) fun c hc => hknown.statement c hc
  | «return» => cases hp

theorem knows_calls_step (hw : Secluded w)
    (hm : Pc.Move capacity a w.shared (w.parties a) l s' p') (b : A) (k : Call A K V D)
    (pc : CallPc A) (hb : Function.update w.parties a p' b = .call k pc) : pc.Knows k s' := by
  by_cases h : b = a
  · subst h
    rw [Function.update_self] at hb
    exact own_step hw hm hb
  · rw [Function.update_of_ne h] at hb
    refine (hw.knows b k pc hb).stable (fun c hc => ?_) hm.executions
    have hs : (w.parties b).statement = some c := by rw [hb]; exact hc
    refine hm.untouched (hw.registered.known a) ((hw.registered.known b).statement c hs) fun ha => ?_
    exact h (hw.exclusive b a c hs ha)

/-- What a call executes is isolated. -/
theorem isolated_of_knows {k : Call A K V D} {c : ℕ} {u : Use} {own : Bool} {out : Outcome}
    {s : Connection A K V D} (hk : (CallPc.working c u (.inside own) out).Knows k s)
    (hp : Party.Knows a s.owner (.op (.child c true) (.inside own))) :
    (⟨k, (s.statements c).bound, s.owner.session⟩ : Execution A K V D).Isolated := by
  obtain rfl : u = .execute := hk.2.2.1 rfl
  obtain ⟨hl, hf, hb⟩ := hk.1
  constructor
  · have hb : (s.statements c).bound.take k.args.length = (k.args.take k.args.length).map some := hb
    rwa [List.take_of_length_le (Nat.le_of_eq hf), List.take_length] at hb
  · have ht : (Operation.child c true).transaction s.owner = k.transaction := hl
    obtain ⟨-, hp⟩ := hp
    cases own with
    | true =>
      obtain ⟨-, -, hn, hs⟩ := hp
      rw [ht] at hn
      simpa [Call.session, hn] using hs
    | false =>
      obtain ⟨-, hin, hn⟩ := hp
      simp only [Operation.InSession, ht] at hin hn
      cases hx : k.transaction with
      | none => exact absurd hx hn
      | some x =>
        rw [hx] at hin
        simpa [Call.session, hx] using hin.2.1

theorem isolated_step (hw : Secluded w) (hm : Pc.Move capacity a w.shared (w.parties a) l s' p')
    (e : Execution A K V D) (he : e ∈ s'.executions) : e.Isolated := by
  obtain he | ⟨k, c, u, own, out, hp, rfl⟩ := hm.execution he
  · exact hw.isolated e he
  · refine isolated_of_knows (a := a) (hw.knows a k _ hp) ?_
    have hl := hw.modular.local_ a
    simpa only [connectionOf, hp, Pc.asParty, CallPc.asParty] using hl

theorem returned_step (hw : Secluded w) (hm : Pc.Move capacity a w.shared (w.parties a) l s' p')
    (k : Call A K V D) (hr : (k, true) ∈ s'.returns) : s'.Executed k := by
  refine Connection.Executed.mono hm.executions ?_
  obtain hr | hp := hm.returns hr
  · exact hw.returned k hr
  · exact hw.knows a k _ hp rfl

theorem secluded_step (hw : Secluded w) (hu : Unshared w (a, l))
    (hm : Pc.Move capacity a w.shared (w.parties a) l s' p') :
    Secluded ⟨s', Function.update w.parties a p'⟩ where
  modular := modular_step hw hm
  unleased := (hw.registered.steady hm).requestLease.trans hw.unleased
  registered := hw.registered.step hm
  exclusive := exclusive_step hw hu hm
  cached := cached_step hw hm
  knows := knows_calls_step hw hm
  isolated := isolated_step hw hm
  returned := returned_step hw hm

end step

theorem secluded_of_reachable {w : World (Connection A K V D) A (Pc A K V D)}
    (h : (requests A K V D capacity).system.Reachable Unshared w) : Secluded w := by
  refine h.induction (fun w hw => ?_) fun w l w' hw hu hs => ?_
  · obtain ⟨hs, hp⟩ := hw
    have hs : w.shared = .fresh := hs
    have hp : ∀ a, w.parties a = .party .out := hp
    constructor
    · exact ⟨by constructor <;> simp [connectionOf, hs, Connection.fresh, Owner.fresh],
        fun a => by simp only [connectionOf, hp, Pc.asParty]; trivial⟩
    · simp [hs, Connection.fresh, Owner.fresh]
    · exact registered_of_start hs hp
    · simp [hp, Pc.statement]
    · simp [hs, Connection.fresh, Owner.fresh]
    · simp [hp]
    · simp [hs, Connection.fresh]
    · simp [hs, Connection.fresh]
  · obtain ⟨s, p, hstep, rfl⟩ := Interleaving.system_step hs
    exact secluded_step hw hu (Pc.move_of_step hstep)

/-- The session the call names has the connection: no transaction has it when the call is plain, and
its own has it otherwise. -/
def Call.Within (k : Call A K V D) (o : Owner A K) : Prop :=
  match k.transaction with
  | none => o.lease = none
  | some x => o.lease = some x ∧ o.session = some (.explicit x)

/-- An operation of the call has just been admitted. -/
def CallPc.admitted : CallPc A → Bool
  | .preparing .admitted | .prepared _ .admitted | .working _ _ .admitted _ => true
  | _ => false

theorem Call.within_of_inSession {k : Call A K V D} {o : Owner A K} (op : Resource.Operation A)
    (ht : op.transaction o = k.transaction) (h : op.InSession o) : k.Within o := by
  simp only [Operation.InSession, ht] at h
  unfold Call.Within
  split
  case h_1 hx => simpa [hx] using h
  case h_2 x hx =>
    simp only [hx] at h
    exact ⟨h.1, h.2.1⟩

/-- An operation is admitted in the session its call names. -/
theorem Secluded.within {w : World (Connection A K V D) A (Pc A K V D)} (hw : Secluded w) {a : A}
    {k : Call A K V D} {pc : CallPc A} (hp : w.parties a = .call k pc) (ha : pc.admitted = true) :
    k.Within w.shared.owner := by
  have hl := hw.modular.local_ a
  have hk := hw.knows a k pc hp
  simp only [connectionOf, hp, Pc.asParty] at hl
  cases pc with
  | preparing pc =>
    cases pc <;> simp only [CallPc.admitted, Bool.false_eq_true] at ha
    exact Call.within_of_inSession (.plain none k.transaction) rfl hl.2.2
  | prepared c pc =>
    cases pc <;> simp only [CallPc.admitted, Bool.false_eq_true] at ha
    exact Call.within_of_inSession (.plain none k.transaction) rfl hl.2.2
  | working c u pc out =>
    cases pc <;> simp only [CallPc.admitted, Bool.false_eq_true] at ha
    exact Call.within_of_inSession (.child c true) hk.1.lent hl.2.2
  | _ => simp [CallPc.admitted] at ha

/-- **Isolation**: as long as lookups find only statements that no other running call works with,
every execution runs with its call's arguments in the session the call names, every operation is
admitted in that session only, and a call that succeeds has executed. -/
theorem execution_isolated {w : World (Connection A K V D) A (Pc A K V D)}
    (h : (requests A K V D capacity).system.Reachable Unshared w) :
    (∀ e ∈ w.shared.executions, e.Isolated) ∧
    (∀ a k pc, w.parties a = .call k pc → pc.admitted = true → k.Within w.shared.owner) ∧
    ∀ k, (k, true) ∈ w.shared.returns → w.shared.Executed k := by
  have hw := secluded_of_reachable h
  exact ⟨hw.isolated, fun a k pc => hw.within, hw.returned⟩

/-! ## Runs of a request with one parameter -/

section runs

/-- Every request is cached and has one parameter. -/
def single : ℕ → Declaration := fun _ => ⟨false, 1⟩

variable {A : Type}

/-- A call of a request with the argument `x`. -/
def callOf (id x : ℕ) (tx : Option A) : Call A ℕ ℕ single := ⟨id, [x], tx, rfl⟩

/-- An operation: the read, the admission, its work and its end. -/
def operation (work : Label A ℕ ℕ single) : List (Label A ℕ ℕ single) :=
  [.work .ok none, .work .ok none, work, .work .ok none]

/-- The work succeeds. -/
def success : Label A ℕ ℕ single := .work .ok (some .ok)

/-- A call that misses prepares its statement and validates it. -/
def prepares (k : Call A ℕ ℕ single) (validation : Label A ℕ ℕ single) :
    List (Label A ℕ ℕ single) :=
  .run k :: operation (.compiled 1) ++ .check true :: operation validation ++ [.next]

/-- It caches the statement and lends it to itself. -/
def caches : List (Label A ℕ ℕ single) := [.next, .next, .next]

/-- The bind of the parameter, and the execution up to the engine's answer. -/
def binds : List (Label A ℕ ℕ single) := .next :: operation success

def executes (begin : List (Label A ℕ ℕ single)) : List (Label A ℕ ℕ single) :=
  [.next, .work .ok none, .work .ok none, .work .snapshot none] ++ begin ++ [.work .ok none]

/-- The result is published, used and closed, and the call gives its statement back and returns. -/
def returns : List (Label A ℕ ℕ single) :=
  [success, .work .ok none, .next, .work .ok none, .work .ok none, .work .release (some .ok),
    .work .ok none, .next, .next, .next]

/-- A call that caches its statement, from its lookup to its return. -/
def completes (k : Call A ℕ ℕ single) : List (Label A ℕ ℕ single) :=
  prepares k success ++ caches ++ binds ++ executes [.work .ok none] ++ returns

def runs (a : A) (ls : List (Label A ℕ ℕ single)) : List (A × Label A ℕ ℕ single) :=
  ls.map fun l => (a, l)

/-- What has been executed: the arguments of the call, the values, and the session. -/
def executed (w : World (Connection A ℕ ℕ single) A (Pc A ℕ ℕ single)) :
    List (List ℕ × List (Option ℕ) × Option (Session A)) :=
  w.shared.executions.map fun e => (e.call.args, e.values, e.session)

/-- A step other than a lookup that finds a statement with which one of two parties works. -/
def unshared (w : World (Connection (Fin 2) ℕ ℕ single) (Fin 2) (Pc (Fin 2) ℕ ℕ single)) :
    Fin 2 × Label (Fin 2) ℕ ℕ single → Bool
  | (_, .run k) => (w.shared.owner.cacheFind k.id).2.all fun c =>
      (w.parties 0).statement ≠ some c && (w.parties 1).statement ≠ some c
  | _ => true

theorem unshared_of_check (w : World (Connection (Fin 2) ℕ ℕ single) (Fin 2) (Pc (Fin 2) ℕ ℕ single))
    (l : Fin 2 × Label (Fin 2) ℕ ℕ single) (h : unshared w l = true) : Unshared w l := by
  obtain ⟨a, l⟩ := l
  rintro k rfl c hc
  simp only [unshared, hc, Option.all_some, Bool.and_eq_true, decide_eq_true_eq] at h
  exact Fin.forall_fin_two.mpr h

theorem fresh_start [DecidableEq A] {capacity : ℕ} :
    (requests A ℕ ℕ single capacity).system.start ⟨Connection.fresh, fun _ => .party .out⟩ :=
  ⟨rfl, fun _ => rfl⟩

/-- Two calls execute with the same statement, the second after the first has returned: each with its
argument, in a transaction of the connection's own. -/
theorem execution_isolated_again : ∃ w,
    (requests (Fin 2) ℕ ℕ single 1).system.Reachable Unshared w ∧
      executed w = [([9], [some 9], some .internal), ([7], [some 7], some .internal)] ∧
      ∀ e ∈ w.shared.executions, e.Isolated := by
  obtain ⟨w, hw, he⟩ := System.exists_reachable_of_execWithin
    (S := (requests (Fin 2) ℕ ℕ single 1).system)
    (l := runs 0 (completes (callOf 0 7 none)) ++
      runs 1 (.run (callOf 0 9 none) :: .next :: binds ++ executes [.work .ok none]))
    (f := executed)
    (b := [([9], [some 9], some .internal), ([7], [some 7], some .internal)])
    unshared_of_check fresh_start rfl
  exact ⟨w, hw, he, (execution_isolated hw).1⟩

/-- **Without the condition calls meet on a statement**: one call executes with the parameter that
another has bound, and a plain call executes inside another party's open transaction. -/
theorem execution_shared :
    (∃ w, (requests ℕ ℕ ℕ single 1).system.Reachable Guard.free w ∧
      executed w = [([7], [some 9], some .internal)]) ∧
    ∃ w, (requests ℕ ℕ ℕ single 1).system.Reachable Guard.free w ∧
      executed w = [([7], [some 7], some (.explicit 2))] ∧
      ∀ e ∈ w.shared.executions, e.call.transaction = none := by
  refine ⟨?_, ?_⟩
  · exact System.exists_reachable_of_exec (S := (requests ℕ ℕ ℕ single 1).system)
      (l := runs 0 (prepares (callOf 0 7 none) success ++ caches ++ binds) ++
        runs 1 (.run (callOf 0 9 none) :: .next :: binds) ++ runs 0 (executes [.work .ok none]))
      (f := executed) fresh_start rfl
  · obtain ⟨w, hw, he⟩ := System.exists_reachable_of_exec
      (S := (requests ℕ ℕ ℕ single 1).system)
      (l := runs 0 (prepares (callOf 0 7 none) success ++ caches) ++
        runs 2 [.outer (.transaction none), .outer .ok] ++
        runs 1 [.run (callOf 0 9 (some 2)), .next] ++ runs 0 (binds ++ executes []))
      (f := fun w => (executed w, w.shared.executions.map fun e => e.call.transaction))
      (b := ([([7], [some 7], some (.explicit 2))], [none])) fresh_start rfl
    obtain ⟨he, ht⟩ := Prod.mk.inj he
    refine ⟨w, hw, he, fun e hm => ?_⟩
    have := List.mem_map_of_mem (f := fun e : Execution ℕ ℕ ℕ single => e.call.transaction) hm
    rw [ht] at this
    simpa using this

end runs

end DuckdbMl.Request
