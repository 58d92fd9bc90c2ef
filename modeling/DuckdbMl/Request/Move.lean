import DuckdbMl.Request.Call
import DuckdbMl.Resource.Custody
import DuckdbMl.Resource.Knowledge

/-!
# What one step of a request can do

The moves of a call and of the parties of `requests`, and what of them the connection sees: each is
a move of one party of `connection`, or leaves the connection's owner alone.

## Main definitions

* `Call.Move`, `Pc.Move`: the moves
* `Pc.party`: the party of `connection` that a position stands for
* `Pc.statement`: the statement a call works with

## Main results

* `Pc.move_of_step`: every step is a move
* `Pc.Move.party`: what the connection sees of a move
-/

set_option linter.unusedSectionVars false

namespace DuckdbMl.Request

open Transition Resource

variable {A K V : Type} {D : K → Declaration} [DecidableEq A] [DecidableEq K] {capacity : ℕ}

/-- What a step of a call can do. -/
inductive Call.Move (capacity : ℕ) (a : A) (s : Connection A K V D) (k : Call A K V D) :
    CallPc A → Label A K V D → Connection A K V D → CallPc A → Prop
  | compile (n) : Move capacity a s k (.preparing .admitted) (.compiled n)
      { s with
        owner := s.owner.registerChild none k.transaction (k.populates capacity)
        statements := Function.update s.statements s.owner.next
          ⟨List.replicate n none, k.populates capacity⟩ }
      (.prepared s.owner.next .finish)
  | prepare (pc act v o r) : Operation.Move a s.owner (.plain none k.transaction) pc act o r →
      (∀ cached, act ≠ .register cached) → (∀ d tx, act ≠ .lend d tx) →
      Move capacity a s k (.preparing pc) (.work act v) { s with owner := o }
        (r.elim (.ended false) .preparing)
  | prepared (c pc act v o r) : Operation.Move a s.owner (.plain none k.transaction) pc act o r →
      (∀ cached, act ≠ .register cached) → (∀ d tx, act ≠ .lend d tx) →
      Move capacity a s k (.prepared c pc) (.work act v) { s with owner := o }
        (r.elim (.worked c .prepare .ok) (.prepared c))
  | refuse (c) : Move capacity a s k (.worked c .prepare .ok) (.check false) s
      (.worked c .validate .error)
  | validate (c) : (s.statements c).bound.length = (D k.id).parameters →
      Move capacity a s k (.worked c .prepare .ok) (.check true) s
        (.working c .validate .read .error)
  | work (c u pc out act v o r) :
      u.permits s.owner c (s.statements c).bound pc act = true →
      (∀ x, v = some x → u.decides pc act x = true) →
      Operation.Move a s.owner (.child c true) pc act o r → (∀ d tx, act ≠ .lend d tx) →
      Move capacity a s k (.working c u pc out) (.work act v)
        { s with
          owner := o
          statements := Function.update s.statements c (k.bind u pc act v (s.statements c))
          executions := k.executes s c pc ++ s.executions }
        (r.elim (.worked c u (v.getD out)) fun pc' => .working c u pc' (v.getD out))
  | follow (c u out) : u ≠ .prepare →
      Move capacity a s k (.worked c u out) .next s (k.follow (s.statements c).cached c u out)
  | skip (c) : s.owner.resultOwner ≠ some c →
      Move capacity a s k (.worked c .execute .ok) (.check true) s (.worked c .consume .ok)
  | add (c) : Move capacity a s k (.adding c) .next
      { s with
        owner := (s.owner.cacheAdd capacity k.id c).1
        clock := s.clock + 1
        stamps := Function.update s.stamps c s.clock }
      (.drop (s.owner.cacheAdd capacity k.id c).2 (.lend c))
  | lend (c) : Move capacity a s k (.lending c) .next
      { s with owner := s.owner.lendChild c k.transaction } (.ready c)
  | ready (c) : Move capacity a s k (.ready c) .next s (.working c (k.useAt 0) .read .error)
  | remove (c) : Move capacity a s k (.removing c) .next
      { s with owner := (s.owner.cacheRemove k.id).1 }
      (.drop (s.owner.cacheRemove k.id).2 (.restore c false))
  | restore (c ok) : Move capacity a s k (.restoring c ok) .next
      { s with owner := s.owner.lendChild c none } (.ended ok)
  | gone (c cs after) : (s.owner.children c).state = .closed →
      Move capacity a s k (.drop (c :: cs) after) .next s (.drop cs after)
  | force (c cs after) : (s.owner.children c).state ≠ .closed →
      Move capacity a s k (.drop (c :: cs) after) .next
        { s with owner := s.owner.setChild c fun child => { child with state := .closing } }
        (.dropping c .waiting cs after)
  | dropped (after) : Move capacity a s k (.drop [] after) .next s after.pc
  | close (c pc cs after act v o r cs' after') : Force.Move a s.owner c pc act o r →
      (∀ d tx, act ≠ .lend d tx) →
      cs' = cs ∧ after' = after ∨ pc = .destroying ∧ cs' = [] ∧ after' = after.raise →
      Move capacity a s k (.dropping c pc cs after) (.work act v) { s with owner := o }
        (r.elim (.drop cs' after') fun pc' => .dropping c pc' cs' after')

theorem Call.move_of_step {a : A} {s s' : Connection A K V D} {k : Call A K V D}
    {pc pc' : CallPc A} {l : Label A K V D} (h : k.step capacity a s pc l = some (s', pc')) :
    k.Move capacity a s pc l s' pc' := by
  unfold Call.step at h
  split at h
  -- a miss: the statement is compiled and registered
  case h_1 pc n =>
    split at h
    case h_1 =>
      obtain ⟨rfl, rfl⟩ := Prod.mk.inj (Option.some.inj h)
      exact .compile n
    case h_2 => cases h
  case h_2 pc act v =>
    split at h
    case h_1 => cases h
    case h_2 hr =>
      obtain ⟨⟨o, r⟩, hs, he⟩ := Option.map_eq_some_iff.mp h
      obtain ⟨rfl, rfl⟩ := Prod.mk.inj he
      exact .prepare pc act v o r (Operation.move_of_step hs) hr (by grind [Operation.step_lend])
  case h_3 c pc act v =>
    split at h
    case h_1 => cases h
    case h_2 hr =>
      obtain ⟨⟨o, r⟩, hs, he⟩ := Option.map_eq_some_iff.mp h
      obtain ⟨rfl, rfl⟩ := Prod.mk.inj he
      exact .prepared c pc act v o r (Operation.move_of_step hs) hr (by grind [Operation.step_lend])
  case h_4 c ok =>
    cases ok with
    | false =>
      obtain ⟨rfl, rfl⟩ := Prod.mk.inj (Option.some.inj h)
      exact .refuse c
    | true =>
      simp only [Bool.not_true, Bool.false_eq_true, if_false] at h
      split at h
      case isTrue hl =>
        obtain ⟨rfl, rfl⟩ := Prod.mk.inj (Option.some.inj h)
        exact .validate c hl
      case isFalse => cases h
  -- the operations on the statement
  case h_5 c u pc out act v =>
    split at h
    case isTrue hp =>
      obtain ⟨⟨o, r⟩, hs, he⟩ := Option.map_eq_some_iff.mp h
      obtain ⟨rfl, rfl⟩ := Prod.mk.inj he
      obtain ⟨hp, hv⟩ := Bool.and_eq_true_iff.mp hp
      refine .work c u pc out act v o r hp (fun x hx => ?_) (Operation.move_of_step hs)
        (by grind [Operation.step_lend])
      subst hx
      exact hv
    case isFalse => cases h
  case h_6 c u out =>
    split at h
    case isTrue => cases h
    case isFalse hu =>
      obtain ⟨rfl, rfl⟩ := Prod.mk.inj (Option.some.inj h)
      exact .follow c u out hu
  case h_7 c =>
    split at h
    case isTrue => cases h
    case isFalse hr =>
      obtain ⟨rfl, rfl⟩ := Prod.mk.inj (Option.some.inj h)
      exact .skip c hr
  -- a statement taken out of the cache may have been closed already
  case h_13 c cs after =>
    obtain ⟨rfl, rfl⟩ := Prod.mk.inj (Option.some.inj h)
    by_cases hc : (s.owner.children c).state = .closed
    · simpa [Force.start, hc] using Call.Move.gone c cs after hc
    · simpa [Force.start, hc] using Call.Move.force c cs after hc
  case h_15 c pc cs after act v =>
    obtain ⟨⟨o, r⟩, hs, he⟩ := Option.map_eq_some_iff.mp h
    obtain ⟨rfl, rfl⟩ := Prod.mk.inj he
    refine .close c pc cs after act v o r _ _ (Force.move_of_step hs)
      (by grind [Force.step_lend]) ?_
    unfold raises
    split <;> simp
  case h_16 => cases h
  all_goals
    obtain ⟨rfl, rfl⟩ := Prod.mk.inj (Option.some.inj h)
    constructor

/-- What a party's step can do. -/
inductive Pc.Move (capacity : ℕ) (a : A) (s : Connection A K V D) :
    Pc A K V D → Label A K V D → Connection A K V D → Pc A K V D → Prop
  | run (k : Call A K V D) : k.named s.owner = true →
      Move capacity a s (.party .out) (.run k) (k.start capacity s).1
        (.call k (k.start capacity s).2)
  | party (p act o p') : Party.Move capacity a s.owner p act o p' →
      (p = .out → outside act = true) → (∀ c tx, act ≠ .lend c tx) →
      Move capacity a s (.party p) (.outer act) { s with owner := o } (.party p')
  | call (k : Call A K V D) (pc l s' pc') : k.Move capacity a s pc l s' pc' →
      Move capacity a s (.call k pc) l s' (.call k pc')
  | return (k : Call A K V D) (ok) : Move capacity a s (.call k (.ended ok)) .next
      { s with returns := (k, ok) :: s.returns } (.party .out)

theorem Pc.move_of_step {a : A} {s s' : Connection A K V D} {p p' : Pc A K V D}
    {l : Label A K V D} (h : Pc.step capacity a s p l = some (s', p')) :
    Pc.Move capacity a s p l s' p' := by
  unfold Pc.step at h
  split at h
  -- a call starts with a new name
  case h_1 k =>
    split at h
    case isTrue hn =>
      obtain ⟨rfl, rfl⟩ := Prod.mk.inj (Option.some.inj h)
      exact .run k hn
    case isFalse => cases h
  -- a party outside a call does what resource.ml offers
  case h_2 act =>
    split at h
    case isTrue ho =>
      obtain ⟨⟨o, r⟩, hs, he⟩ := Option.map_eq_some_iff.mp h
      obtain ⟨rfl, rfl⟩ := Prod.mk.inj he
      exact .party _ act o r (Party.move_of_step hs) (fun _ => ho) (by grind [outside])
    case isFalse => cases h
  case h_3 p act hp =>
    obtain ⟨⟨o, r⟩, hs, he⟩ := Option.map_eq_some_iff.mp h
    obtain ⟨rfl, rfl⟩ := Prod.mk.inj he
    refine .party p act o r (Party.move_of_step hs) (fun h => absurd h hp) fun c tx => ?_
    rintro rfl
    simp [Party.step_lend hp] at hs
  case h_4 k ok =>
    obtain ⟨rfl, rfl⟩ := Prod.mk.inj (Option.some.inj h)
    exact .return k ok
  -- a call goes on
  case h_5 k pc _ =>
    obtain ⟨⟨s₁, pc₁⟩, hs, he⟩ := Option.map_eq_some_iff.mp h
    obtain ⟨rfl, rfl⟩ := Prod.mk.inj he
    exact .call k pc _ s₁ pc₁ (Call.move_of_step hs)
  case h_6 => cases h

/-! ## What the connection sees -/

/-- The party of `connection` that a call stands for. -/
def CallPc.asParty (k : Call A K V D) : CallPc A → Party A
  | .preparing pc | .prepared _ pc => .op (.plain none k.transaction) pc
  | .working c _ pc _ => .op (.child c true) pc
  | .dropping c pc _ _ => .force c pc
  | _ => .out

/-- The party of `connection` that a position stands for. -/
def Pc.asParty : Pc A K V D → Party A
  | .party p => p
  | .call k pc => pc.asParty k

def After.statement : After → Option ℕ
  | .lend c | .restore c _ => some c
  | .done _ => none

/-- The statement a call works with. -/
def CallPc.statement : CallPc A → Option ℕ
  | .prepared c _ | .working c _ _ _ | .worked c _ _ | .adding c | .lending c | .ready c
  | .removing c | .restoring c _ => some c
  | .drop _ after | .dropping _ _ _ after => after.statement
  | .preparing _ | .ended _ => none

def Pc.statement : Pc A K V D → Option ℕ
  | .party _ => none
  | .call _ pc => pc.statement

/-- The statements a call still has to close. -/
def CallPc.queue : CallPc A → List ℕ
  | .drop cs _ => cs
  | .dropping c _ cs _ => c :: cs
  | _ => []

def Pc.queue : Pc A K V D → List ℕ
  | .party _ => []
  | .call _ pc => pc.queue

/-- How a call begins: with a lookup that finds its statement, or the preparation of one. -/
theorem Call.start_cases (capacity : ℕ) (s : Connection A K V D) (k : Call A K V D) :
    (∃ c, k.caches capacity = true ∧ (s.owner.cacheFind k.id).2 = some c ∧
      k.start capacity s = ({ s with
        owner := (s.owner.cacheFind k.id).1
        clock := s.clock + 1
        stamps := Function.update s.stamps c s.clock }, .lending c)) ∨
    k.start capacity s = (s, .preparing .read) := by
  unfold Call.start
  split
  case isTrue hc =>
    split
    case h_1 o c ho => exact .inl ⟨c, hc, by simp [ho]⟩
    case h_2 => exact .inr rfl
  case isFalse => exact .inr rfl

theorem Call.named_iff {o : Owner A K} {k : Call A K V D} :
    k.named o = true ↔ ∀ x, k.transaction = some x → o.named x := by
  cases ht : k.transaction with
  | none => simp [Call.named, ht]
  | some x => cases hx : o.tokens x <;> simp [Call.named, ht, Owner.named, hx]

/-- What holds of a call's names: its transaction's callback has its token, and its statements are
registered. -/
structure Pc.Known (o : Owner A K) (p : Pc A K V D) : Prop where
  named : ∀ k pc, p = .call k pc → ∀ x, k.transaction = some x → o.named x
  statement : ∀ c, p.statement = some c → c < o.next
  queue : ∀ c ∈ p.queue, c < o.next

/-- What the connection sees of a call's step: nothing, or the move of one party, which lends only
the statement the call works with. -/
theorem Call.Move.sees {a : A} {s s' : Connection A K V D} {k : Call A K V D} {pc pc' : CallPc A}
    {l : Label A K V D} (h : k.Move capacity a s pc l s' pc')
    (hk : (Pc.call k pc).Known s.owner) :
    s'.owner = s.owner ∧ pc'.asParty k = pc.asParty k ∨
    ∃ act, Party.Move capacity a s.owner (pc.asParty k) act s'.owner (pc'.asParty k) ∧
      ∀ c tx, act = .lend c tx → pc.statement = some c ∧ pc.asParty k = .out := by
  have named : ∀ x, k.transaction = some x → s.owner.named x := hk.named k pc rfl
  -- a use of the statement begins as an operation on its child
  have start : ∀ {p' : Party A} (c : ℕ), c < s.owner.next → p' = .op (.child c true) .read →
      ∃ act, Party.Move capacity a s.owner .out act s.owner p' ∧
        ∀ d tx, act = .lend d tx → pc.statement = some d ∧ pc.asParty k = .out := by
    rintro p' c hc rfl
    exact ⟨.operate (.child c true), .start _ _ _ (.child c true hc), by simp⟩
  have known : ∀ c, pc.statement = some c → c < s.owner.next := hk.statement
  cases h
  -- compiling registers the child
  case compile n =>
    refine .inr ⟨.register (k.populates capacity), ?_, by simp⟩
    exact .op _ _ _ _ _ (.register none k.transaction _ rfl)
  case prepare pc act v o r hm hr hl =>
    refine .inr ⟨act, ?_, by simp [hl]⟩
    cases r <;> exact .op _ _ _ _ _ hm
  case prepared c pc act v o r hm hr hl =>
    refine .inr ⟨act, ?_, by simp [hl]⟩
    cases r <;> exact .op _ _ _ _ _ hm
  case validate c _ => exact .inr (start c (known c rfl) rfl)
  case work c u pc out act v o r hp hv hm hl =>
    refine .inr ⟨act, ?_, by simp [hl]⟩
    cases r <;> exact .op _ _ _ _ _ hm
  -- what follows an operation is another one, or nothing that the connection sees
  case follow c u out hu =>
    have hc := known c rfl
    unfold Call.follow
    split
    case h_4 => exact .inr (start c hc rfl)
    case h_5 => exact .inr (start c hc rfl)
    all_goals
      refine .inl ⟨rfl, ?_⟩
      repeat' split
      all_goals rfl
  case add c =>
    exact .inr ⟨.cacheAdd k.id c, .start _ _ _ (.cacheAdd k.id c), by simp⟩
  case lend c =>
    exact .inr ⟨.lend c k.transaction, .start _ _ _ (.lend c k.transaction named),
      by simp [CallPc.statement, CallPc.asParty]⟩
  case ready c => exact .inr (start c (known c rfl) rfl)
  case remove c =>
    exact .inr ⟨.cacheRemove k.id, .start _ _ _ (.cacheRemove k.id), by simp⟩
  case restore c ok =>
    exact .inr ⟨.lend c none, .start _ _ _ (.lend c none (by simp)),
      by simp [CallPc.statement, CallPc.asParty]⟩
  -- an evicted statement is forced to close
  case force c cs after hc =>
    have hn : c < s.owner.next := hk.queue c (by simp [Pc.queue, CallPc.queue])
    exact .inr ⟨.force c, .start _ _ _ (.force c hn hc), by simp⟩
  case dropped after => cases after <;> exact .inl ⟨rfl, rfl⟩
  case close c pc cs after act v o r cs' after' hm hl hc =>
    refine .inr ⟨act, ?_, by simp [hl]⟩
    cases r <;> exact .force _ _ _ _ _ hm
  all_goals exact .inl ⟨rfl, rfl⟩

theorem Call.start_sees (capacity : ℕ) (a : A) {s : Connection A K V D} {k : Call A K V D}
    (hn : k.named s.owner = true) :
    ∃ act, Party.Move capacity a s.owner .out act (k.start capacity s).1.owner
      ((k.start capacity s).2.asParty k) ∧ ∀ c tx, act ≠ .lend c tx := by
  obtain ⟨c, -, -, hs⟩ | hs := k.start_cases capacity s
  · rw [hs]
    exact ⟨.cacheFind k.id, .start _ _ _ (.cacheFind k.id), by simp⟩
  · rw [hs]
    exact ⟨.operate (.plain none k.transaction),
      .start _ _ _ (.plain none k.transaction (Call.named_iff.mp hn)), by simp⟩

/-- **What the connection sees of a step.** -/
theorem Pc.Move.sees {a : A} {s s' : Connection A K V D} {p p' : Pc A K V D} {l : Label A K V D}
    (h : Pc.Move capacity a s p l s' p') (hk : p.Known s.owner) :
    s'.owner = s.owner ∧ p'.asParty = p.asParty ∨
    ∃ act, Party.Move capacity a s.owner p.asParty act s'.owner p'.asParty ∧
      ∀ c tx, act = .lend c tx → p.statement = some c ∧ p.asParty = .out := by
  cases h with
  | run k hn =>
    obtain ⟨act, hm, hl⟩ := Call.start_sees capacity a hn
    exact .inr ⟨act, hm, fun c tx h => absurd h (hl c tx)⟩
  | party p act o p' hm _ hl => exact .inr ⟨act, hm, fun c tx h => absurd h (hl c tx)⟩
  | call k pc l s' pc' hm => exact hm.sees hk
  | «return» k ok => exact .inl ⟨rfl, rfl⟩

/-! ## The parties that run no call -/

/-- What a party that runs no call is running: a transaction or a close. -/
def plain : Party A → Prop
  | .out | .transaction _ _ | .close _ => True
  | _ => False

theorem plain_of_move {a : A} {o o' : Owner A K} {p p' : Party A} {act : Act A K}
    (h : Party.Move capacity a o p act o' p') (hp : plain p) (ho : p = .out → outside act = true) :
    plain p' := by
  cases h with
  | start act o' p' h => cases h <;> simp_all [plain, outside]
  | op job pc act o' r h => exact hp.elim
  | force c pc act o' r h => exact hp.elim
  | bridge request pc act o' r h => exact hp.elim
  | transaction request pc act o' r h => cases r <;> trivial
  | close pc act o' r h => cases r <;> trivial

theorem custody_of_move {a : A} {o o' : Owner A K} {p p' : Party A} {act : Act A K}
    (h : Party.Move capacity a o p act o' p') (hp : plain p) (ho : p = .out → outside act = true) :
    Custody o p.queue p.popped o' p'.queue p'.popped := by
  cases h with
  | start act o' p' h =>
    cases h <;> first
      | exact .of_idle (.of_eq rfl rfl rfl) rfl rfl rfl rfl
      | simp [outside] at ho
  | op job pc act o' r h => exact hp.elim
  | force c pc act o' r h => exact hp.elim
  | bridge request pc act o' r h => exact hp.elim
  | transaction request pc act o' r h => exact h.custody
  | close pc act o' r h => exact h.custody

/-- A party of `requests` that runs no call runs a transaction or a close. -/
def Pc.Plain (p : Pc A K V D) : Prop := ∀ q, p = .party q → plain q

theorem Pc.Move.plain {a : A} {s s' : Connection A K V D} {p p' : Pc A K V D} {l : Label A K V D}
    (h : Pc.Move capacity a s p l s' p') (hp : p.Plain) : p'.Plain := by
  rintro q rfl
  cases h with
  | party p act o p' hm ho _ => exact plain_of_move hm (hp p rfl) ho
  | «return» k ok => trivial

/-- Only `cache_add` enters a statement into the cache. -/
theorem Call.Move.cached {a : A} {s s' : Connection A K V D} {k : Call A K V D} {pc pc' : CallPc A}
    {l : Label A K V D} (h : k.Move capacity a s pc l s' pc') {e : Cached K}
    (he : e ∈ s'.owner.cached) :
    e ∈ s.owner.cached ∨ ∃ c, pc = .adding c ∧ e = ⟨k.id, c⟩ := by
  have operation : ∀ {op : Resource.Operation A} {pc : OpPc A} {act : Act A K} {o : Owner A K}
      {r : Option (OpPc A)}, op.Move a s.owner pc act o r → e ∈ o.cached →
      (∀ request tx, op = .plain request tx → ∀ cached, act ≠ .register cached) →
      e ∈ s.owner.cached := by
    intro op pc act o r hm he hr
    obtain hc | hc := (hm.custody hr).cached <;> simp_all
  cases h
  case prepare hm hr _ => exact .inl (operation hm he fun _ _ _ => hr)
  case prepared hm hr _ => exact .inl (operation hm he fun _ _ _ => hr)
  case work hm _ => exact .inl (operation hm he (by simp))
  case add c =>
    obtain rfl | he := List.mem_cons.mp (List.mem_of_mem_take he)
    · exact .inr ⟨c, rfl, rfl⟩
    · exact .inl he
  case remove c =>
    simp only [Owner.cacheRemove, List.partition_eq_filter_filter] at he
    exact .inl (List.mem_of_mem_filter he)
  case close c pc cs after act v o r cs' after' hm _ _ => cases hm <;> exact .inl he
  all_goals exact .inl he

theorem Pc.Move.cached {a : A} {s s' : Connection A K V D} {p p' : Pc A K V D} {l : Label A K V D}
    (h : Pc.Move capacity a s p l s' p') (hp : p.Plain) {e : Cached K}
    (he : e ∈ s'.owner.cached) :
    e ∈ s.owner.cached ∨ ∃ k c, p = .call k (.adding c) ∧ e = ⟨k.id, c⟩ := by
  cases h with
  | run k hn =>
    obtain ⟨c, -, hf, hs⟩ | hs := k.start_cases capacity s <;> rw [hs] at he
    · obtain ⟨hc, ho⟩ := Owner.cacheFind_some (Prod.ext rfl hf)
      simp only [ho] at he
      obtain rfl | he := List.mem_cons.mp he
      · exact .inl hc
      · exact .inl (List.mem_of_mem_filter he)
    · exact .inl he
  | party p act o p' hm ho _ =>
    obtain hc | hc := (custody_of_move hm (hp p rfl) ho).cached <;> simp_all
  | call k pc l s' pc' hm =>
    obtain he | ⟨c, rfl, rfl⟩ := hm.cached he
    · exact .inl he
    · exact .inr ⟨k, c, rfl, rfl⟩
  | «return» k ok => exact .inl he

/-- A call goes on with its statement, or has registered it, or found it in the cache. -/
theorem Pc.Move.statement {a : A} {s s' : Connection A K V D} {p p' : Pc A K V D}
    {l : Label A K V D} (h : Pc.Move capacity a s p l s' p') {c : ℕ}
    (hc : p'.statement = some c) :
    p.statement = some c ∨ c = s.owner.next ∧ s'.owner.next = s.owner.next + 1 ∨
      ∃ k, l = .run k ∧ p = .party .out ∧ k.caches capacity = true ∧
        (s.owner.cacheFind k.id).2 = some c := by
  cases h with
  -- a call starts with what it finds in the cache, or without a statement
  | run k hn =>
    obtain ⟨d, hcs, hf, hs⟩ | hs := k.start_cases capacity s <;> rw [hs] at hc
    · obtain rfl : d = c := Option.some.inj hc
      exact .inr (.inr ⟨k, rfl, rfl, hcs, hf⟩)
    · cases hc
  | party p act o p' hm ho _ => cases hc
  | «return» k ok => cases hc
  | call k pc l s' pc' hm =>
    cases hm
    case compile n => exact .inr (.inl ⟨(Option.some.inj hc).symm, rfl⟩)
    case prepare r _ _ _ => cases r <;> cases hc
    case prepared r _ _ _ => cases r <;> exact .inl hc
    case work r _ _ _ _ => cases r <;> exact .inl hc
    -- what follows an operation is about the same statement
    case follow c u out hu =>
      refine .inl ?_
      simp only [Pc.statement] at hc ⊢
      unfold Call.follow at hc
      repeat' split at hc
      all_goals first | exact hc | cases hc
    case dropped after => cases after <;> exact .inl hc
    -- the closing of other statements leaves the call its own
    case close after act v o r cs' after' _ _ ha =>
      have hs : after'.statement = some c := by cases r <;> exact hc
      refine .inl ?_
      obtain ⟨-, rfl⟩ | ⟨-, -, rfl⟩ := ha
      · exact hs
      · cases after <;> first | exact hs | cases hs
    all_goals first | exact .inl hc | cases hc

/-- A call closes its own statement, and what it takes out of the cache. -/
theorem Pc.Move.queue {a : A} {s s' : Connection A K V D} {p p' : Pc A K V D}
    {l : Label A K V D} (h : Pc.Move capacity a s p l s' p') {c : ℕ} (hc : c ∈ p'.queue) :
    c ∈ p.queue ∨ p.statement = some c ∨ ∃ e ∈ s.owner.cached, e.child = c := by
  cases h with
  | run k hn =>
    obtain ⟨d, -, -, hs⟩ | hs := k.start_cases capacity s <;> rw [hs] at hc <;> cases hc
  | party p act o p' hm ho _ => cases hc
  | «return» k ok => cases hc
  | call k pc l s' pc' hm =>
    cases hm
    case prepare r _ _ _ => cases r <;> cases hc
    case prepared r _ _ _ => cases r <;> cases hc
    case work r _ _ _ _ => cases r <;> cases hc
    case follow c u out hu =>
      refine .inr (.inl ?_)
      simp only [Pc.queue] at hc
      unfold Call.follow at hc
      repeat' split at hc
      all_goals simp_all [CallPc.queue, Pc.statement, CallPc.statement]
    -- what is evicted is its own statement, or was in the cache
    case add d =>
      obtain ⟨e, he, rfl⟩ := List.mem_map.mp hc
      obtain rfl | he := List.mem_cons.mp (List.mem_of_mem_drop he)
      · exact .inr (.inl rfl)
      · exact .inr (.inr ⟨e, he, rfl⟩)
    case remove d =>
      simp only [Pc.queue, CallPc.queue, Owner.cacheRemove, List.partition_eq_filter_filter] at hc
      obtain ⟨e, he, rfl⟩ := List.mem_map.mp hc
      exact .inr (.inr ⟨e, List.mem_of_mem_filter he, rfl⟩)
    case gone d cs after _ => exact .inl (List.mem_cons_of_mem _ hc)
    case force d cs after _ => exact .inl hc
    case dropped after => cases after <;> cases hc
    -- the queue gets shorter while it is closed
    case close d pc cs after act v o r cs' after' _ _ ha =>
      refine .inl ?_
      have hcs : cs' ⊆ cs := by
        obtain ⟨rfl, -⟩ | ⟨-, rfl, -⟩ := ha
        · exact fun _ h => h
        · exact List.nil_subset _
      cases r with
      | none => exact List.mem_cons_of_mem _ (hcs hc)
      | some pc' =>
        obtain rfl | hc := List.mem_cons.mp hc
        · exact List.mem_cons_self
        · exact List.mem_cons_of_mem _ (hcs hc)
    all_goals cases hc

theorem Pc.Move.sameCall {a : A} {s s' : Connection A K V D} {p p' : Pc A K V D}
    {l : Label A K V D} (h : Pc.Move capacity a s p l s' p') {k : Call A K V D} {pc : CallPc A}
    (hp : p' = .call k pc) :
    (∃ pc', p = .call k pc') ∨ p = .party .out ∧ l = .run k ∧ k.named s.owner = true := by
  cases h with
  | run k hn =>
    obtain ⟨rfl, -⟩ := Pc.call.inj hp
    exact .inr ⟨rfl, rfl, hn⟩
  | party => cases hp
  | call k pc l s' pc' hm =>
    obtain ⟨rfl, -⟩ := Pc.call.inj hp
    exact .inl ⟨pc, rfl⟩
  | «return» => cases hp

theorem Pc.Plain.not_bridge {p : Pc A K V D} (hp : p.Plain) (request : Option A) (pc : BridgePc) :
    p.asParty ≠ .bridge request pc := by
  cases p with
  | party q =>
    rintro rfl
    exact hp _ rfl
  | call k pc => cases pc <;> simp [Pc.asParty, CallPc.asParty]

/-! ## What every reachable state satisfies -/

/-- Every position names what is registered, and the cache holds registered statements. -/
structure Registered (w : World (Connection A K V D) A (Pc A K V D)) : Prop where
  plain : ∀ a, (w.parties a).Plain
  known : ∀ a, (w.parties a).Known w.shared.owner
  cached : ∀ e ∈ w.shared.owner.cached, e.child < w.shared.owner.next

section registered

variable {w : World (Connection A K V D) A (Pc A K V D)} {a : A} {l : Label A K V D}
  {s' : Connection A K V D} {p' : Pc A K V D}

theorem Registered.steady (hw : Registered w) (hm : Pc.Move capacity a w.shared (w.parties a) l s' p') :
    w.shared.owner.Steady s'.owner := by
  obtain ⟨ho, -⟩ | ⟨act, hp, -⟩ := hm.sees (hw.known a)
  · rw [ho]
    exact .of_tokens rfl rfl
  · exact hp.steady (hw.plain a).not_bridge

theorem Registered.next (hw : Registered w) (hm : Pc.Move capacity a w.shared (w.parties a) l s' p') :
    w.shared.owner.next ≤ s'.owner.next := by
  obtain ⟨ho, -⟩ | ⟨act, hp, -⟩ := hm.sees (hw.known a)
  · exact Nat.le_of_eq (by rw [ho])
  · exact hp.retains.next

theorem Registered.known_step (hw : Registered w)
    (hm : Pc.Move capacity a w.shared (w.parties a) l s' p')
    (b : A) : (Function.update w.parties a p' b).Known s'.owner := by
  have steady := hw.steady hm
  have next := hw.next hm
  by_cases h : b = a
  -- of the party that moves: its statement is new, its own, or from the cache
  · subst h
    rw [Function.update_self]
    have hk := hw.known b
    refine ⟨fun k pc hp x hx => ?_, fun c hc => ?_, fun c hc => ?_⟩
    · refine steady.named x ?_
      obtain ⟨pc', hp'⟩ | ⟨-, -, hn⟩ := hm.sameCall hp
      · exact hk.named k pc' hp' x hx
      · exact Call.named_iff.mp hn x hx
    · obtain hc | ⟨rfl, hs⟩ | ⟨k, -, -, -, hf⟩ := hm.statement hc
      · exact Nat.lt_of_lt_of_le (hk.statement c hc) next
      · exact hs ▸ Nat.lt_succ_self _
      · have he := (Owner.cacheFind_some (Prod.ext rfl hf)).1
        exact Nat.lt_of_lt_of_le (hw.cached _ he) next
    · obtain hc | hc | ⟨e, he, rfl⟩ := hm.queue hc
      · exact Nat.lt_of_lt_of_le (hk.queue c hc) next
      · exact Nat.lt_of_lt_of_le (hk.statement c hc) next
      · exact Nat.lt_of_lt_of_le (hw.cached _ he) next
  -- the names and numbers known to the others stay valid
  · rw [Function.update_of_ne h]
    have hk := hw.known b
    exact ⟨fun k pc hp x hx => steady.named x (hk.named k pc hp x hx),
      fun c hc => Nat.lt_of_lt_of_le (hk.statement c hc) next,
      fun c hc => Nat.lt_of_lt_of_le (hk.queue c hc) next⟩

theorem Registered.step (hw : Registered w)
    (hm : Pc.Move capacity a w.shared (w.parties a) l s' p') :
    Registered ⟨s', Function.update w.parties a p'⟩ where
  plain b := by
    by_cases h : b = a
    · subst h
      simpa using hm.plain (hw.plain b)
    · simpa [h] using hw.plain b
  known := hw.known_step hm
  cached e he := by
    refine Nat.lt_of_lt_of_le ?_ (hw.next hm)
    obtain he | ⟨k, c, hp, rfl⟩ := hm.cached (hw.plain a) he
    · exact hw.cached e he
    · exact (hw.known a).statement c (by rw [hp]; rfl)

theorem registered_of_start (hs : w.shared = .fresh) (hp : ∀ a, w.parties a = .party .out) :
    Registered w := by
  refine ⟨fun a q hq => ?_, fun a => ?_, by simp [hs, Connection.fresh, Owner.fresh]⟩
  · obtain rfl : Party.out = q := by simpa [hp] using hq
    trivial
  · constructor <;> simp [hp, Pc.statement, Pc.queue]

end registered

end DuckdbMl.Request
