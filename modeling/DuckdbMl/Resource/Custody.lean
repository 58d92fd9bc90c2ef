import DuckdbMl.Resource.Move

/-!
# Who closes the children of a connection

What a step does to the statement cache and to the children, and which of them a party has taken on
itself to close: the registered ones of a drain or of `destroy_connection`, and the cached ones that
`destroy_connection` has taken out of the cache.

## Main definitions

* `Party.queue`, `Party.popped`: the registered and the cached children a party is about to close
* `Custody`: what a step does to them

## Main results

* `Operation.Move.custody`, `Tx.Move.custody`, `Close.Move.custody`: each machine's steps
-/

set_option linter.unusedSectionVars false

namespace DuckdbMl.Resource

variable {A K : Type} [DecidableEq A] [DecidableEq K] {o o' : Owner A K} {a : A}

def Wreck.queue : Wreck → List ℕ
  | .each cs => cs
  | _ => []

def Wreck.popped : Wreck → List ℕ
  | .eachCached cs => cs
  | _ => []

def OpPc.wreck : OpPc A → Option Wreck
  | .wrecking w => some w
  | _ => none

def TxPc.wreck : TxPc → Option Wreck
  | .wrecking w => some w
  | _ => none

def ClosePc.wreck : ClosePc → Option Wreck
  | .wrecking w => some w
  | _ => none

/-- The `destroy_connection` that a party runs. -/
def Party.wreck : Party A → Option Wreck
  | .op _ pc => pc.wreck
  | .transaction _ pc => pc.wreck
  | .close pc => pc.wreck
  | _ => none

def TxPc.queue : TxPc → List ℕ
  | .draining _ _ cs => cs
  | pc => pc.wreck.elim [] Wreck.queue

/-- The registered children that a party is about to close. -/
def Party.queue : Party A → List ℕ
  | .transaction _ pc => pc.queue
  | p => p.wreck.elim [] Wreck.queue

/-- The children taken out of the cache that a party is about to close. -/
def Party.popped (p : Party A) : List ℕ := p.wreck.elim [] Wreck.popped

/-- No child is closed by the step, or opened again. -/
structure Owner.SameChildren (o o' : Owner A K) : Prop where
  next : o'.next = o.next
  prepared : o'.preparedChildren = o.preparedChildren
  destroyed : ∀ c, (o'.children c).destroyed = (o.children c).destroyed
  closed : ∀ c, (o'.children c).state = .closed ↔ (o.children c).state = .closed

theorem Owner.SameChildren.of_eq (hn : o'.next = o.next)
    (hp : o'.preparedChildren = o.preparedChildren) (hc : o'.children = o.children) :
    o.SameChildren o' := by
  constructor <;> simp [hn, hp, hc]

theorem Owner.destroyChild_self {c : ℕ} : ((o.destroyChild c).children c).destroyed =
    (o.children c).destroyed + 1 := by
  simp [Owner.destroyChild, Owner.setChild, Owner.releaseResult]

theorem Owner.destroyChild_ne {c d : ℕ} (h : c ≠ d) :
    (o.destroyChild d).children c = o.children c := by
  simp [Owner.destroyChild, Owner.setChild, Owner.releaseResult, h]

/-- Lending leaves how a child stands. -/
theorem Owner.lendChild_child (o : Owner A K) (c d : ℕ) (tx : Option A) :
    ((o.lendChild d tx).children c).destroyed = (o.children c).destroyed ∧
      ((o.lendChild d tx).children c).state = (o.children c).state := by
  by_cases h : c = d
  · subst h
    simp [Owner.lendChild, Owner.setChild]
  · simp [Owner.lendChild, Owner.setChild, h]

/-- The mark of `force_close_child` -/
def Owner.markClosing (o : Owner A K) (d : ℕ) : Owner A K :=
  o.setChild d fun child => { child with state := .closing }

theorem Owner.markClosing_child {c d : ℕ} (h : (o.children d).state ≠ .closed) :
    ((o.markClosing d).children c).destroyed = (o.children c).destroyed ∧
      (((o.markClosing d).children c).state = .closed ↔ (o.children c).state = .closed) := by
  by_cases hc : c = d
  · subst hc
    simp [Owner.markClosing, Owner.setChild, h]
  · simp [Owner.markClosing, Owner.setChild, hc]

/-- What a step does to the cache and the children: nothing that counts, the cache emptied by
`destroy_connection`, a registered child closed, or one that was in the cache. -/
inductive Custody (o : Owner A K) (q r : List ℕ) (o' : Owner A K) (q' r' : List ℕ) : Prop
  | keep : o.SameChildren o' → o'.cached = o.cached → q' ⊆ q ++ o.preparedChildren → r' = r →
      Custody o q r o' q' r'
  | pop : o.SameChildren o' → o'.cached = [] → q' = [] → r = [] → r' = o.cached.map (·.child) →
      Custody o q r o' q' r'
  | destroy (c) : o' = o.destroyChild c → c ∈ q → q' ⊆ q → r' = r → Custody o q r o' q' r'
  | close (c) : o' = o.destroyChild c → q' = [] → r = c :: r' → Custody o q r o' q' r'

theorem Custody.cached {q r q' r' : List ℕ} (h : Custody o q r o' q' r') :
    o'.cached = o.cached ∨ o'.cached = [] := by
  cases h with
  | keep _ hc _ _ => exact .inl hc
  | pop _ hc _ _ _ => exact .inr hc
  | destroy c h _ _ _ => exact .inl (h ▸ rfl)
  | close c h _ _ => exact .inl (h ▸ rfl)

theorem Custody.next {q r q' r' : List ℕ} (h : Custody o q r o' q' r') : o'.next = o.next := by
  cases h with
  | keep hs _ _ _ => exact hs.next
  | pop hs _ _ _ _ => exact hs.next
  | destroy c h _ _ _ => exact h ▸ rfl
  | close c h _ _ => exact h ▸ rfl

theorem Custody.prepared {q r q' r' : List ℕ} (h : Custody o q r o' q' r') :
    o'.preparedChildren ⊆ o.preparedChildren := by
  cases h with
  | keep hs _ _ _ => exact hs.prepared ▸ List.Subset.refl _
  | pop hs _ _ _ _ => exact hs.prepared ▸ List.Subset.refl _
  | destroy c h _ _ _ => exact h ▸ List.filter_subset_self _
  | close c h _ _ => exact h ▸ List.filter_subset_self _

/-- A child counts as closed when its state says so. -/
theorem Custody.closed {q r q' r' : List ℕ} (h : Custody o q r o' q' r') {c : ℕ}
    (hc : (o.children c).state = .closed ↔ (o.children c).destroyed ≠ 0) :
    (o'.children c).state = .closed ↔ (o'.children c).destroyed ≠ 0 := by
  have destroy : ∀ d, ((o.destroyChild d).children c).state = .closed ↔
      ((o.destroyChild d).children c).destroyed ≠ 0 := by
    intro d
    by_cases hd : c = d
    · subst hd
      simp [Owner.destroyChild, Owner.setChild]
    · rw [Owner.destroyChild_ne hd]
      exact hc
  cases h with
  | keep hs _ _ _ => rw [hs.closed, hs.destroyed, hc]
  | pop hs _ _ _ _ => rw [hs.closed, hs.destroyed, hc]
  | destroy d h _ _ _ => exact h ▸ destroy d
  | close d h _ _ => exact h ▸ destroy d

theorem Custody.queue {q r q' r' : List ℕ} (h : Custody o q r o' q' r') :
    q' ⊆ q ++ o.preparedChildren := by
  cases h with
  | keep _ _ hq _ => exact hq
  | pop _ _ hq _ _ => exact hq ▸ List.nil_subset _
  | destroy c _ _ hq _ => exact List.Subset.trans hq (List.subset_append_left _ _)
  | close c _ hq _ => exact hq ▸ List.nil_subset _

theorem Custody.popped {q r q' r' : List ℕ} (h : Custody o q r o' q' r') :
    r' = r ∨ r' = o.cached.map (·.child) ∨ ∃ c, r = c :: r' := by
  cases h with
  | keep _ _ _ hr => exact .inl hr
  | pop _ _ _ _ hr => exact .inr (.inl hr)
  | destroy c _ _ _ hr => exact .inl hr
  | close c _ _ hr => exact .inr (.inr ⟨c, hr⟩)

theorem Wreck.custody {w : Wreck} {r : Option Wreck} (h : w.step o = (o', r)) :
    Custody o w.queue w.popped o' (r.elim [] Wreck.queue) (r.elim [] Wreck.popped) := by
  unfold Wreck.step at h
  split at h
  all_goals obtain ⟨rfl, rfl⟩ := Prod.mk.inj h
  case h_1 => exact .keep (.of_eq rfl rfl rfl) rfl (List.subset_append_right _ _) rfl
  case h_2 c cs =>
    exact .destroy c rfl List.mem_cons_self (List.subset_cons_self _ _) rfl
  case h_3 => exact .keep (.of_eq rfl rfl rfl) rfl (by simp [Wreck.queue]) rfl
  case h_4 => exact .pop (.of_eq rfl rfl rfl) rfl rfl rfl rfl
  case h_5 c cs => exact .close c rfl rfl rfl
  case h_6 => exact .keep (.of_eq rfl rfl rfl) rfl (by simp [Wreck.queue]) rfl
  case h_7 => exact .keep (.of_eq rfl rfl rfl) rfl (by simp) rfl

theorem Wreck.eq_native {w : Wreck} (h : w.step o = (o', none)) : w = .native := by
  unfold Wreck.step at h
  split at h
  case h_7 => rfl
  all_goals cases h

/-- A step of a party that has nothing to close, before or after. -/
theorem Custody.of_idle {p p' : Party A} (hs : o.SameChildren o') (hc : o'.cached = o.cached)
    (hr : p.popped = []) (hq' : p'.queue = []) (hr' : p'.popped = []) :
    Custody o p.queue p.popped o' p'.queue p'.popped :=
  .keep hs hc (by simp [hq']) (by simp [hr, hr'])

theorem Operation.Move.custody {op : Operation A} {pc : OpPc A} {act : Act A K}
    {r : Option (OpPc A)} (h : op.Move a o pc act o' r)
    (hr : ∀ request tx, op = .plain request tx → ∀ cached, act ≠ .register cached) :
    Custody o (Party.op op pc).queue (Party.op op pc).popped o' (r.elim .out (Party.op op)).queue
      (r.elim .out (Party.op op)).popped := by
  cases h
  case register request tx cached hop => exact absurd rfl (hr request tx hop cached)
  case wreck w w' hw => exact Wreck.custody hw
  case wrecked w o₁ hw =>
    obtain rfl := Wreck.eq_native hw
    rw [Wreck.closed hw]
    exact .of_idle (.of_eq rfl rfl rfl) rfl rfl rfl rfl
  case failOwn hpc => rcases hpc with rfl | rfl <;> exact .of_idle (.of_eq rfl rfl rfl) rfl rfl rfl rfl
  case failLent hpc =>
    rcases hpc with rfl | rfl <;> exact .of_idle (.of_eq rfl rfl rfl) rfl rfl rfl rfl
  all_goals exact .of_idle (.of_eq rfl rfl rfl) rfl rfl rfl rfl

theorem Tx.Move.custody {request : Option A} {pc : TxPc} {act : Act A K} {r : Option TxPc}
    (h : Tx.Move a o pc act o' r) :
    Custody o (Party.transaction request pc).queue (Party.transaction request pc).popped o'
      (r.elim .out (Party.transaction request)).queue
      (r.elim .out (Party.transaction request)).popped := by
  cases h
  case drain attempted drain _ =>
    refine .keep (.of_eq rfl rfl rfl) rfl ?_ rfl
    exact List.Subset.trans (List.filter_subset_self _) (List.subset_append_right _ _)
  case destroy attempted drain c cs =>
    exact .destroy c rfl List.mem_cons_self (List.subset_cons_self _ _) rfl
  case drained attempted drain pc hpc =>
    rcases hpc with rfl | rfl | rfl <;> exact .of_idle (.of_eq rfl rfl rfl) rfl rfl rfl rfl
  case wreck w w' hw => exact Wreck.custody hw
  case wrecked w hw =>
    obtain rfl := Wreck.eq_native hw
    rw [Wreck.closed hw]
    exact .of_idle (.of_eq rfl rfl rfl) rfl rfl rfl rfl
  all_goals exact .of_idle (.of_eq rfl rfl rfl) rfl rfl rfl rfl

theorem Close.Move.custody {pc : ClosePc} {act : Act A K} {r : Option ClosePc}
    (h : Close.Move a o pc act o' r) :
    Custody o (Party.close (A := A) pc).queue (Party.close (A := A) pc).popped o'
      (r.elim .out (Party.close (A := A))).queue (r.elim .out (Party.close (A := A))).popped := by
  cases h
  case wreck w w' hw => exact Wreck.custody hw
  case wrecked w hw =>
    obtain rfl := Wreck.eq_native hw
    rw [Wreck.closed hw]
    exact .of_idle (.of_eq rfl rfl rfl) rfl rfl rfl rfl
  all_goals exact .of_idle (.of_eq rfl rfl rfl) rfl rfl rfl rfl

end DuckdbMl.Resource
