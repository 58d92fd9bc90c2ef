import DuckdbMl.Request.Isolation
import Mathlib.Data.List.Nodup

/-!
# The statement cache

Where the statements that `prepare_cached` makes are in a run: in the cache, with the one party that
is about to cache or to close them, or closed. A statement moves from one of these places to another,
never to two and never to none, as long as a call caches its statement with no other call on its way
to cache the same id and with the statements of the others among those used last, a call removes its
id with no other call of that id at work, and no validation raises.

## Main definitions

* `Sole`, `Recent`, `Alone`, `Valid`: the conditions on the steps
* `Place`, `At`: the places of a statement
* `Accounted`: the invariant

## Main results

* `accounted_of_reachable`, `cache_kept`: the cache in every run with the conditions
* `cache_broken`: runs without them
-/

set_option linter.unusedSectionVars false

namespace DuckdbMl.Request

open Transition Resource

/-! ## One place -/

section place

variable {P : Type} {at_ at' : P → Prop}

/-- What is at one place stays, or moves to another. -/
def Relocates (at_ at' : P → Prop) : Prop :=
  (∀ q, at' q ↔ at_ q) ∨ ∃ p p', at_ p ∧ at' p' ∧ ∀ q, at' q → q = p' ∨ at_ q ∧ q ≠ p

theorem Relocates.existsUnique (h : Relocates at_ at') (hu : ∃! p, at_ p) : ∃! p, at' p := by
  obtain h | ⟨p, p', hp, hp', h⟩ := h
  · simpa only [h] using hu
  · refine ⟨p', hp', fun q hq => ?_⟩
    obtain rfl | ⟨hq, hne⟩ := h q hq
    · rfl
    · exact absurd (hu.unique hq hp) hne

end place

variable {A K V : Type} {D : K → Declaration} [DecidableEq A] [DecidableEq K] {capacity : ℕ}

/-! ## The conditions -/

/-- The call has not cached its statement yet. -/
def Use.fresh : Use → Bool
  | .prepare | .validate => true
  | _ => false

/-- The call's lookup has found nothing, and it may still come to `cache_add`. -/
def CallPc.missed : CallPc A → Bool
  | .preparing _ | .prepared _ _ | .adding _ => true
  | .working _ u _ _ => u.fresh
  | .worked _ u out => u.fresh && out = .ok
  | _ => false

/-- The party runs a call that has missed `id` and may still come to cache it. -/
def Pc.awaits (capacity : ℕ) (id : K) : Pc A K V D → Bool
  | .party _ => false
  | .call k pc => k.id = id && k.populates capacity && pc.missed

/-- How many cached statements have been used after the statement `c`. -/
def Connection.usedAfter (s : Connection A K V D) (c : ℕ) : ℕ :=
  s.owner.cached.countP fun e => s.stamps c < s.stamps e.child

/-- `cache_add` runs only while no other call that has missed the same id may still come to it. -/
def Sole (capacity : ℕ) (w : World (Connection A K V D) A (Pc A K V D))
    (l : A × Label A K V D) : Prop :=
  ∀ k c, w.parties l.1 = .call k (.adding c) →
    ∀ b, b ≠ l.1 → (w.parties b).awaits capacity k.id = false

/-- `cache_add` runs only while each cached statement that another running call works with is one of
the `capacity - 1` used last. -/
def Recent (capacity : ℕ) (w : World (Connection A K V D) A (Pc A K V D))
    (l : A × Label A K V D) : Prop :=
  ∀ k c, w.parties l.1 = .call k (.adding c) → ∀ b, b ≠ l.1 → ∀ e ∈ w.shared.owner.cached,
    (w.parties b).statement = some e.child → w.shared.usedAfter e.child + 1 < capacity

/-- `cache_remove` runs only while no other running call of the same id works with a cached
statement. -/
def Alone (w : World (Connection A K V D) A (Pc A K V D)) (l : A × Label A K V D) : Prop :=
  ∀ k c, w.parties l.1 = .call k (.removing c) → ∀ b, b ≠ l.1 →
    ∀ k' pc, w.parties b = .call k' pc → k'.id = k.id →
      ∀ e ∈ w.shared.owner.cached, pc.statement ≠ some e.child

/-- The validation of a statement that is to be cached does not raise. -/
def Valid (w : World (Connection A K V D) A (Pc A K V D)) (l : A × Label A K V D) : Prop :=
  ∀ k c pc out act, w.parties l.1 = .call k (.working c .validate pc out) →
    l.2 = .work act (some .raised) → (w.shared.statements c).cached = false

/-! ## The places of a statement -/

/-- The statements that a call alone is to cache or to close. -/
def CallPc.own : CallPc A → List ℕ
  | .prepared c _ | .adding c => [c]
  | .working c u _ _ | .worked c u _ => if u.fresh then [c] else []
  | .drop cs _ | .dropping _ .finishing cs _ => cs
  | .dropping c _ cs _ => c :: cs
  | _ => []

/-- The statement that a call has prepared, until it has cached it. -/
def CallPc.made : CallPc A → Option ℕ
  | .prepared c _ | .adding c => some c
  | .working c u _ _ | .worked c u _ => if u.fresh then some c else none
  | _ => none

def Pc.own : Pc A K V D → List ℕ
  | .party _ => []
  | .call _ pc => pc.own

/-- The statements that a party alone holds. -/
def Pc.held (p : Pc A K V D) : List ℕ := p.asParty.popped ++ p.own

/-- Where a statement can be. -/
inductive Place (A : Type)
  | cache
  | held (a : A)
  | closed

/-- The statement is at the place. -/
def At (w : World (Connection A K V D) A (Pc A K V D)) (c : ℕ) : Place A → Prop
  | .cache => c ∈ w.shared.owner.cached.map (·.child)
  | .held a => c ∈ (w.parties a).held
  | .closed => (w.shared.owner.children c).destroyed ≠ 0

/-- What one step of a party does to the place of a statement: whether it is in the cache, with the
party, and how often it has been closed. -/
inductive Shift (inC inC' inH inH' : Prop) (n n' : ℕ) : Prop
  | stay : (inC' ↔ inC) → (inH' ↔ inH) → n' = n → Shift inC inC' inH inH' n n'
  | pop : inC → ¬ inC' → inH' → n' = n → Shift inC inC' inH inH' n n'
  | add : inH → ¬ inH' → inC' → n' = n → Shift inC inC' inH inH' n n'
  | close : inH → ¬ inH' → (inC' → inC) → n' = n + 1 → Shift inC inC' inH inH' n n'

/-- The shift of the statement `c` in a step of a party. -/
abbrev Shifts (s : Connection A K V D) (p : Pc A K V D) (s' : Connection A K V D)
    (p' : Pc A K V D) (c : ℕ) : Prop :=
  Shift (c ∈ s.owner.cached.map (·.child)) (c ∈ s'.owner.cached.map (·.child)) (c ∈ p.held)
    (c ∈ p'.held) (s.owner.children c).destroyed (s'.owner.children c).destroyed

theorem Shift.relocates {w : World (Connection A K V D) A (Pc A K V D)} {a : A}
    {s' : Connection A K V D} {p' : Pc A K V D} {c : ℕ}
    (h : Shifts w.shared (w.parties a) s' p' c) :
    Relocates (At w c) (At ⟨s', Function.update w.parties a p'⟩ c) := by
  -- only the party that moves changes what it holds
  have other : ∀ b, b ≠ a → (At ⟨s', Function.update w.parties a p'⟩ c (.held b) ↔
      At w c (.held b)) := fun b hb => by simp [At, hb]
  have own : At ⟨s', Function.update w.parties a p'⟩ c (.held a) ↔ c ∈ p'.held := by simp [At]
  cases h with
  | stay hc hh hn =>
    refine .inl fun q => ?_
    cases q with
    | cache => exact hc
    | held b =>
      by_cases hb : b = a
      · subst hb
        exact own.trans hh
      · exact other b hb
    | closed => simp only [At, hn]
  -- from the cache to the party
  | pop hc hc' hh hn =>
    refine .inr ⟨.cache, .held a, hc, own.mpr hh, fun q hq => ?_⟩
    cases q with
    | cache => exact absurd hq hc'
    | held b =>
      by_cases hb : b = a
      · exact .inl (hb ▸ rfl)
      · exact .inr ⟨(other b hb).mp hq, by simp⟩
    | closed => exact .inr ⟨by simpa only [At, hn] using hq, by simp⟩
  -- from the party to the cache
  | add hh hh' hc hn =>
    refine .inr ⟨.held a, .cache, hh, hc, fun q hq => ?_⟩
    cases q with
    | cache => exact .inl rfl
    | held b =>
      by_cases hb : b = a
      · subst hb
        exact absurd (own.mp hq) hh'
      · exact .inr ⟨(other b hb).mp hq, by simpa using hb⟩
    | closed => exact .inr ⟨by simpa only [At, hn] using hq, by simp⟩
  -- the party destroys it
  | close hh hh' hc hn =>
    refine .inr ⟨.held a, .closed, hh, by simp [At, hn], fun q hq => ?_⟩
    cases q with
    | cache => exact .inr ⟨hc hq, by simp⟩
    | held b =>
      by_cases hb : b = a
      · subst hb
        exact absurd (own.mp hq) hh'
      · exact .inr ⟨(other b hb).mp hq, by simpa using hb⟩
    | closed => exact .inl rfl

/-- A statement that is at one place, and closed at most once, stays so. -/
theorem Shift.located {w : World (Connection A K V D) A (Pc A K V D)} {a : A}
    {s' : Connection A K V D} {p' : Pc A K V D} {c : ℕ}
    (h : Shifts w.shared (w.parties a) s' p' c)
    (hw : (∃! p, At w c p) ∧ (w.shared.owner.children c).destroyed ≤ 1) :
    (∃! p, At ⟨s', Function.update w.parties a p'⟩ c p) ∧
      (s'.owner.children c).destroyed ≤ 1 := by
  refine ⟨h.relocates.existsUnique hw.1, ?_⟩
  cases h with
  | stay _ _ hn => exact hn ▸ hw.2
  | pop _ _ _ hn => exact hn ▸ hw.2
  | add _ _ _ hn => exact hn ▸ hw.2
  | close hh _ _ hn =>
    have h0 : (w.shared.owner.children c).destroyed = 0 := by
      by_contra h0
      have := @ExistsUnique.unique _ _ hw.1 (.held a) (.closed) hh h0
      cases this
    omega

/-! ## The invariant -/

/-- The operation has not started a transaction. -/
def simple : OpPc A → Bool
  | .read | .enter _ | .admitted | .finish => true
  | _ => false

/-- What a call's position says of the statement it is to cache. -/
def CallPc.Tidy (s : Connection A K V D) : CallPc A → Prop
  | .preparing pc | .prepared _ pc => simple pc = true
  | .working c u pc out => u ≠ .prepare ∧ (u.fresh = true →
      simple pc = true ∧ ((s.statements c).cached = true → out ≠ .raised))
  | .worked c u out => u.fresh = true → (s.statements c).cached = true → out ≠ .raised
  | .adding c => (s.statements c).cached = true
  | _ => True

/-- The cache is in order: its keys and its statements are distinct, it fits, and the most recently
used comes first. -/
structure InOrder (capacity : ℕ) (s : Connection A K V D) : Prop where
  keys : (s.owner.cached.map (·.key)).Nodup
  children : (s.owner.cached.map (·.child)).Nodup
  length : s.owner.cached.length ≤ capacity
  recent : s.owner.cached.Pairwise fun e f => s.stamps f.child < s.stamps e.child
  clock : ∀ e ∈ s.owner.cached, s.stamps e.child < s.clock

/-- **The invariant**: the cache is in order, and each statement made for it is at one place. -/
structure Accounted (capacity : ℕ) (w : World (Connection A K V D) A (Pc A K V D)) : Prop where
  registered : Registered w
  order : InOrder capacity w.shared
  flagged : ∀ e ∈ w.shared.owner.cached, (w.shared.statements e.child).cached = true
  room : ∀ c < w.shared.owner.next, (w.shared.statements c).cached = true → capacity ≠ 0
  closed : ∀ c < w.shared.owner.next, (w.shared.owner.children c).state = .closed ↔
    (w.shared.owner.children c).destroyed ≠ 0
  located : ∀ c < w.shared.owner.next, (w.shared.statements c).cached = true →
    (∃! p, At w c p) ∧ (w.shared.owner.children c).destroyed ≤ 1
  popped : ∀ a, (w.parties a).asParty.popped.Nodup
  held : ∀ a, ∀ c ∈ (w.parties a).held, c < w.shared.owner.next
  prepared : ∀ c ∈ w.shared.owner.preparedChildren,
    c < w.shared.owner.next ∧ (w.shared.statements c).cached = false
  queued : ∀ a, ∀ c ∈ (w.parties a).asParty.queue,
    c < w.shared.owner.next ∧ (w.shared.statements c).cached = false
  short : ∀ a, (w.parties a).queue.length ≤ 1
  tidy : ∀ a k pc, w.parties a = .call k pc → pc.Tidy w.shared
  spared : ∀ a b c, b ≠ a → c ∈ (w.parties a).own → (w.shared.statements c).cached = true →
    (w.parties b).statement ≠ some c
  made : ∀ a k pc c, w.parties a = .call k pc → pc.made = some c →
    (w.shared.statements c).cached = k.populates capacity
  missed : ∀ a id, (w.parties a).awaits capacity id = true →
    ∀ e ∈ w.shared.owner.cached, e.key ≠ id
  keyed : ∀ a k pc, w.parties a = .call k pc → ∀ e ∈ w.shared.owner.cached,
    pc.statement = some e.child → e.key = k.id

/-! ## The cache as a list -/

section list

/-- What stands behind `n` others in a list that decreases is less than `n` of them. -/
theorem le_countP_of_mem_drop {α : Type} {f : α → ℕ} {l : List α} {n : ℕ} {x : α}
    (h : l.Pairwise fun x y => f y < f x) (hx : x ∈ l.drop n) :
    n ≤ l.countP fun y => f x < f y := by
  have hn : n < l.length := by
    by_contra hn
    rw [List.drop_eq_nil_of_le (Nat.le_of_not_lt hn)] at hx
    cases hx
  have hlt : ∀ y ∈ l.take n, f x < f y := by
    rw [← List.take_append_drop n l, List.pairwise_append] at h
    exact fun y hy => h.2.2 y hy x hx
  calc n = (l.take n).length := by rw [List.length_take, Nat.min_eq_left (Nat.le_of_lt hn)]
    _ = (l.take n).countP fun y => f x < f y :=
      (List.countP_eq_length.mpr fun y hy => by simpa using hlt y hy).symm
    _ ≤ l.countP fun y => f x < f y := (List.take_sublist n l).countP_le

/-- A key that is cached once is found. -/
theorem Owner.cacheFind_of_mem {o : Owner A K} (hn : (o.cached.map (·.key)).Nodup) {e : Cached K}
    (he : e ∈ o.cached) : (o.cacheFind e.key).2 = some e.child := by
  have hf : o.cached.filter (fun f => decide (f.key = e.key)) = [e] := by
    have hperm : (o.cached.filter fun f => decide (f.key = e.key)).length ≤ 1 := by
      have h := List.nodup_iff_count_le_one.mp hn e.key
      rw [List.count, List.countP_map, List.countP_eq_length_filter] at h
      simpa only [Function.comp_def, beq_eq_decide] using h
    have hmem : e ∈ o.cached.filter fun f => decide (f.key = e.key) :=
      List.mem_filter.mpr ⟨he, by simp⟩
    obtain ⟨f, hf⟩ := List.length_eq_one_iff.mp
      (Nat.le_antisymm hperm (List.length_pos_of_mem hmem))
    rw [hf] at hmem ⊢
    rw [List.mem_singleton.mp hmem]
  simp [Owner.cacheFind, List.partition_eq_filter_filter, hf]

end list

/-! ## Where a step moves a statement -/

section shift

variable {o o' : Owner A K} {c d : ℕ}

/-- `destroy_connection` empties the cache and closes what was in it; whatever else it closes was
never made for the cache. -/
theorem shift_of_custody {q r q' r' X : List ℕ} (h : Custody o q r o' q' r') (hq : c ∉ q)
    (hr : r.Nodup) (hX : c ∈ X → r = []) :
    Shift (c ∈ o.cached.map (·.child)) (c ∈ o'.cached.map (·.child)) (c ∈ r ++ X) (c ∈ r' ++ X)
      (o.children c).destroyed (o'.children c).destroyed := by
  cases h with
  | keep hs hc _ hr' => exact .stay (by rw [hc]) (by rw [hr']) (hs.destroyed c)
  | pop hs hc _ hrn hr' =>
    by_cases hin : c ∈ o.cached.map (·.child)
    · refine .pop hin (by simp [hc]) ?_ (hs.destroyed c)
      exact List.mem_append_left _ (hr' ▸ hin)
    · refine .stay (by simp [hc, hin]) ?_ (hs.destroyed c)
      simp [hrn, hr', hin]
  -- what is destroyed otherwise was never made for the cache (`hq`)
  | destroy d hd hdq _ hr' =>
    have hne : c ≠ d := by
      rintro rfl
      exact hq hdq
    subst hd
    exact .stay Iff.rfl (by rw [hr']) (by rw [Owner.destroyChild_ne hne])
  -- the party destroys the first of those it took out
  | close d hd _ hrd =>
    subst hd
    by_cases hne : c = d
    · subst hne
      have hX' : c ∉ X := fun hx => by simp [hX hx] at hrd
      have hr' : c ∉ r' := by
        rw [hrd] at hr
        exact (List.nodup_cons.mp hr).1
      exact .close (by simp [hrd]) (by simp [hr', hX']) (fun h => h) Owner.destroyChild_self
    · refine .stay Iff.rfl ?_ (by rw [Owner.destroyChild_ne hne])
      simp [hrd, hne]

theorem simple_popped {op : Resource.Operation A} {pc : OpPc A} (h : simple pc = true) :
    (Party.op op pc).popped = [] := by
  cases pc <;> simp_all [simple, Party.popped, Party.wreck, OpPc.wreck]

end shift

section step

variable {w : World (Connection A K V D) A (Pc A K V D)} {a : A} {l : Label A K V D}
  {s' : Connection A K V D} {p' : Pc A K V D} {c : ℕ}

/-- What a party holds is not in the cache, and not closed. -/
theorem Accounted.open_of_held (hw : Accounted capacity w) (hc : c < w.shared.owner.next)
    (hf : (w.shared.statements c).cached = true) (hh : c ∈ (w.parties a).held) :
    c ∉ w.shared.owner.cached.map (·.child) ∧ (w.shared.owner.children c).destroyed = 0 ∧
      (w.shared.owner.children c).state ≠ .closed := by
  have hu := (hw.located c hc hf).1
  have h0 : (w.shared.owner.children c).destroyed = 0 := by
    by_contra h0
    have := @ExistsUnique.unique _ _ hu (.held a) (.closed) hh h0
    cases this
  refine ⟨fun hin => ?_, h0, fun hs => (hw.closed c hc).mp hs h0⟩
  have := @ExistsUnique.unique _ _ hu (.held a) (.cache) hh hin
  cases this

/-- What `cache_add` evicts leaves the cache. -/
theorem Owner.cacheAdd_children (o : Owner A K) (n : ℕ) (key : K) (d : ℕ) :
    (o.cacheAdd (n + 1) key d).1.cached.map (·.child) =
        d :: (o.cached.map (·.child)).take n ∧
      (o.cacheAdd (n + 1) key d).2 = (o.cached.map (·.child)).drop n := by
  simp [Owner.cacheAdd, List.map_take, List.map_drop]

/-- What `cache_remove` removes leaves the cache, and nothing else does. -/
theorem Owner.cacheRemove_children {o : Owner A K} (key : K)
    (hn : (o.cached.map (·.child)).Nodup) (c : ℕ) :
    (c ∈ (o.cacheRemove key).2 → c ∈ o.cached.map (·.child) ∧
      c ∉ (o.cacheRemove key).1.cached.map (·.child)) ∧
    (c ∉ (o.cacheRemove key).2 → (c ∈ (o.cacheRemove key).1.cached.map (·.child) ↔
      c ∈ o.cached.map (·.child))) := by
  simp only [Owner.cacheRemove, List.partition_eq_filter_filter, List.mem_map, List.mem_filter,
    Function.comp_apply, Bool.not_eq_true', decide_eq_true_eq, decide_eq_false_iff_not]
  constructor
  -- no other entry has the same statement
  · rintro ⟨e, ⟨he, hk⟩, rfl⟩
    refine ⟨⟨e, he, rfl⟩, ?_⟩
    rintro ⟨f, ⟨hf, hk'⟩, hef⟩
    obtain rfl := List.inj_on_of_nodup_map hn hf he hef
    exact hk' hk
  · intro hc
    constructor
    · rintro ⟨e, ⟨he, -⟩, rfl⟩
      exact ⟨e, he, rfl⟩
    · rintro ⟨e, he, rfl⟩
      exact ⟨e, ⟨he, fun hk => hc ⟨e, ⟨he, hk⟩, rfl⟩⟩, rfl⟩

theorem Call.useAt_fresh {k : Call A K V D} {i : ℕ} : (k.useAt i).fresh = false := by
  unfold Call.useAt
  split <;> rfl

/-- A call that goes on to prepare a statement for the cache has missed its id. -/
theorem Call.start_missed {s : Connection A K V D} {k : Call A K V D}
    (hk : k.populates capacity = true) (h : (k.start capacity s).2.missed = true) :
    (s.owner.cacheFind k.id).2 = none ∧ (k.start capacity s).1 = s := by
  have hcaches : k.caches capacity = true := by
    simp only [Call.populates, Bool.and_eq_true] at hk
    exact hk.1
  unfold Call.start at h ⊢
  rw [if_pos hcaches] at h ⊢
  cases hf : (s.owner.cacheFind k.id).2 with
  | none =>
    have : s.owner.cacheFind k.id = ((s.owner.cacheFind k.id).1, none) := Prod.ext rfl hf
    rw [this]
    exact ⟨rfl, rfl⟩
  | some d =>
    have : s.owner.cacheFind k.id = ((s.owner.cacheFind k.id).1, some d) := Prod.ext rfl hf
    rw [this] at h
    cases h

theorem Call.follow_popped {k : Call A K V D} {cached : Bool} {d : ℕ} {u : Use} {out : Outcome} :
    (Pc.call k (k.follow cached d u out)).asParty.popped = [] := by
  unfold Call.follow
  repeat' split
  all_goals rfl

/-- A call goes on to cache or to close no statement but its own. -/
theorem Call.follow_own_subset {k : Call A K V D} {cached : Bool} {d : ℕ} {u : Use}
    {out : Outcome} : (k.follow (A := A) cached d u out).own ⊆ [d] := by
  unfold Call.follow
  repeat' split
  case h_4 => simp [CallPc.own, Call.useAt_fresh]
  all_goals simp [CallPc.own, Use.fresh]

/-- A statement made for the cache stays with its call until it is cached or to be closed. -/
theorem Call.follow_own {k : Call A K V D} {d : ℕ} {u : Use} {out : Outcome} (hu : u ≠ .prepare)
    (ho : u.fresh = true → out ≠ .raised) :
    (k.follow (A := A) true d u out).own = if u.fresh then [d] else [] := by
  cases u with
  | prepare => exact absurd rfl hu
  | validate => cases out <;> simp_all [Call.follow, CallPc.own, Use.fresh]
  | bind i =>
    cases out <;> simp [Call.follow, CallPc.own, Call.useAt_fresh] <;> simp [Use.fresh]
  | execute => cases out <;> simp [Call.follow, CallPc.own, Use.fresh]
  | consume => cases out <;> simp [Call.follow, CallPc.own, Use.fresh]

theorem Accounted.shift_call (hw : Accounted capacity w) {k : Call A K V D} {pc pc' : CallPc A}
    (hp : w.parties a = .call k pc) (hc : c < w.shared.owner.next)
    (hf : (w.shared.statements c).cached = true) (hm : k.Move capacity a w.shared pc l s' pc') :
    Shifts w.shared (.call k pc) s' (.call k pc') c := by
  have htidy := hw.tidy a k pc hp
  -- a statement in a queue is not marked as cached any more
  have hqueue : ∀ d ∈ (Pc.call k pc).asParty.queue, c ≠ d := by
    rintro d hd rfl
    simp [(hw.queued a c (by rw [hp]; exact hd)).2] at hf
  have hpopped : (Pc.call k pc).asParty.popped.Nodup := hp ▸ hw.popped a
  have hopen : c ∈ (Pc.call k pc).held → _ := fun h => hw.open_of_held (a := a) hc hf (hp ▸ h)
  have hshort : (Pc.call k pc).queue.length ≤ 1 := hp ▸ hw.short a
  cases hm
  -- operations of the facade move no statement in or out of the cache
  case prepare pc act v o r hm hr _ =>
    have h := shift_of_custody (hm.custody fun _ _ _ => hr) (X := []) (fun h => hqueue c h rfl)
      hpopped (by simp)
    cases r <;> exact h
  case prepared d pc act v o r hm hr _ =>
    have h := shift_of_custody (hm.custody fun _ _ _ => hr) (X := [d]) (fun h => hqueue c h rfl) hpopped
      fun _ => simple_popped htidy
    cases r <;> exact h
  case work d u pc out act v o r hp hv hm _ =>
    have h := shift_of_custody (hm.custody (by simp)) (X := if u.fresh then [d] else [])
      (fun h => hqueue c h rfl) hpopped fun hX => by
        split at hX
        case isTrue hu => exact simple_popped (htidy.2 hu).1
        case isFalse => cases hX
    cases r <;> exact h
  case compile n =>
    have hne : c ≠ w.shared.owner.next := Nat.ne_of_lt hc
    exact .stay Iff.rfl (by simp [Pc.held, Pc.own, CallPc.own, Pc.asParty, CallPc.asParty,
      Party.popped, Party.wreck, OpPc.wreck, hne]) (by simp [Owner.registerChild, hne])
  case refuse d => exact .stay Iff.rfl Iff.rfl rfl
  case validate d _ => exact .stay Iff.rfl Iff.rfl rfl
  -- a statement that is in the cache is not destroyed with its call
  case follow d u out hu =>
    refine .stay Iff.rfl ?_ rfl
    simp only [Pc.held, Call.follow_popped]
    by_cases hd : c = d
    · subst hd
      rw [hf]
      simp only [Pc.own, Call.follow_own hu fun hu => htidy hu hf]
      exact Iff.rfl
    · have h' : c ∉ (k.follow (A := A) (w.shared.statements d).cached d u out).own := fun h =>
        hd (List.mem_singleton.mp (Call.follow_own_subset h))
      have h : c ∉ (CallPc.worked (A := A) d u out).own := by
        simp only [CallPc.own]
        split <;> simp [hd]
      exact iff_of_false h' h
  case skip d _ => exact .stay Iff.rfl Iff.rfl rfl
  -- `cache_add`: the call's own statement goes in, and those behind the capacity go out
  case add d =>
    have hn := (hw.registered.known a).statement d (by rw [hp]; rfl)
    obtain ⟨n, rfl⟩ := Nat.exists_eq_succ_of_ne_zero (hw.room d hn htidy)
    obtain ⟨hc', he⟩ := Owner.cacheAdd_children w.shared.owner n k.id d
    have hnodup := hw.order.children
    rw [← List.take_append_drop n (w.shared.owner.cached.map (·.child))] at hnodup
    have hdisj := List.disjoint_of_nodup_append hnodup
    have split := List.take_append_drop n (w.shared.owner.cached.map (·.child))
    simp only [Shifts, Pc.held, Pc.own, CallPc.own, hc', he]
    by_cases hd : c = d
    · subst hd
      obtain ⟨hin, -, -⟩ := hopen (by simp [Pc.held, Pc.own, CallPc.own])
      exact .add (by simp) (fun h => hin (List.mem_of_mem_drop h)) List.mem_cons_self rfl
    -- an evicted statement is now the call's to destroy
    · by_cases hr : c ∈ (w.shared.owner.cached.map (·.child)).drop n
      · refine .pop (List.mem_of_mem_drop hr) (fun h => ?_) hr rfl
        obtain h | h := List.mem_cons.mp h
        · exact hd h
        · exact hdisj h hr
      · refine .stay ?_ (iff_of_false hr ?_) rfl
        · rw [List.mem_cons, ← split, List.mem_append]
          simp [hd, hr]
        · simpa [Pc.asParty, CallPc.asParty, Party.popped, Party.wreck] using hd
  case lend d => exact .stay Iff.rfl Iff.rfl (Owner.lendChild_child ..).1
  case ready d =>
    exact .stay Iff.rfl (by simp [Pc.held, Pc.own, CallPc.own, Call.useAt_fresh, Pc.asParty,
      CallPc.asParty, Party.popped, Party.wreck, OpPc.wreck]) rfl
  -- `cache_remove` takes the statement of the call's id, if it is there
  case remove d =>
    obtain ⟨hr, hk⟩ := Owner.cacheRemove_children k.id hw.order.children c
    by_cases h : c ∈ (w.shared.owner.cacheRemove k.id).2
    · exact .pop (hr h).1 (hr h).2 h rfl
    · exact .stay (hk h) (iff_of_false h (by simp [Pc.held, Pc.own, CallPc.own, Pc.asParty,
        CallPc.asParty, Party.popped, Party.wreck])) rfl
  case restore d ok => exact .stay Iff.rfl Iff.rfl (Owner.lendChild_child ..).1
  -- the statement that the call was to destroy has been destroyed by another
  case gone d cs after hs =>
    refine .stay Iff.rfl ?_ rfl
    have hne : c ≠ d := by
      rintro rfl
      exact (hopen (by simp [Pc.held, Pc.own, CallPc.own])).2.2 hs
    simp [Pc.held, Pc.own, CallPc.own, Pc.asParty, CallPc.asParty, hne]
  case force d cs after hs => exact .stay Iff.rfl Iff.rfl (Owner.markClosing_child hs).1
  case dropped after => cases after <;> exact .stay Iff.rfl Iff.rfl rfl
  -- destroying a statement that was taken out
  case close d pc cs after act v o r cs' after' hm _ ha =>
    cases hm
    case claim =>
      obtain ⟨rfl, rfl⟩ | ⟨h, -⟩ := ha
      · exact .stay Iff.rfl Iff.rfl rfl
      · cases h
    case gone hs _ =>
      obtain ⟨rfl, rfl⟩ | ⟨h, -⟩ := ha
      · refine .stay Iff.rfl ?_ rfl
        have hne : c ≠ d := by
          rintro rfl
          exact (hopen (by simp [Pc.held, Pc.own, CallPc.own])).2.2 hs
        simp [Pc.held, Pc.own, CallPc.own, Pc.asParty, CallPc.asParty, Party.popped, Party.wreck, hne]
      · cases h
    case destroy =>
      obtain rfl : cs = [] := by
        simpa [Pc.queue, CallPc.queue] using hshort
      obtain rfl : cs' = [] := by
        obtain ⟨h, -⟩ | ⟨-, h, -⟩ := ha <;> exact h
      by_cases hd : c = d
      · subst hd
        refine .close (by simp [Pc.held, Pc.own, CallPc.own]) ?_ (fun h => h)
          Owner.destroyChild_self
        simp [Pc.held, Pc.own, CallPc.own, Pc.asParty, CallPc.asParty, Party.popped, Party.wreck]
      · refine .stay Iff.rfl ?_ (by rw [Owner.destroyChild_ne hd])
        simp [Pc.held, Pc.own, CallPc.own, Pc.asParty, CallPc.asParty, Party.popped, Party.wreck, hd]
    case finish =>
      obtain ⟨rfl, rfl⟩ | ⟨h, -⟩ := ha
      · exact .stay Iff.rfl Iff.rfl rfl
      · cases h

theorem Accounted.cached_find (hw : Accounted capacity w) {e : Cached K}
    (he : e ∈ w.shared.owner.cached) {f : Cached K} :
    f ∈ e :: w.shared.owner.cached.filter (fun f => !decide (f.key = e.key)) ↔
      f ∈ w.shared.owner.cached := by
  simp only [List.mem_cons, List.mem_filter, Bool.not_eq_true', decide_eq_false_iff_not]
  constructor
  · rintro (rfl | ⟨hf, -⟩)
    · exact he
    · exact hf
  · intro hf
    by_cases hk : f.key = e.key
    · exact .inl (List.inj_on_of_nodup_map hw.order.keys hf he hk)
    · exact .inr ⟨hf, hk⟩

/-- **Where a step moves a statement.** -/
theorem Accounted.shift (hw : Accounted capacity w)
    (hm : Pc.Move capacity a w.shared (w.parties a) l s' p') (hc : c < w.shared.owner.next)
    (hf : (w.shared.statements c).cached = true) :
    Shifts w.shared (w.parties a) s' p' c := by
  have hplain := hw.registered.plain a
  have hqueue : c ∉ (w.parties a).asParty.queue := fun hd => by
    simp [(hw.queued a c hd).2] at hf
  have hpopped := hw.popped a
  generalize hp : w.parties a = p at hm hplain hqueue hpopped ⊢
  -- a lookup moves its entry to the front, and no statement anywhere
  cases hm with
  | run k hn =>
    obtain ⟨d, -, hfind, hs⟩ | hs := k.start_cases capacity w.shared <;>
      simp only [hs]
    · obtain ⟨he, ho⟩ := Owner.cacheFind_some (Prod.ext rfl hfind)
      refine .stay ?_ Iff.rfl (by simp only [ho])
      simp only [ho, List.mem_map, hw.cached_find he]
    · exact .stay Iff.rfl Iff.rfl rfl
  | party p act o p' hmove ho _ =>
    exact shift_of_custody (X := []) (custody_of_move hmove (hplain p rfl) ho) hqueue hpopped
      (by simp)
  | call k pc l s' pc' hm => exact hw.shift_call hp hc hf hm
  | «return» k ok => exact .stay Iff.rfl Iff.rfl rfl

/-! ## The order of the cache -/

/-- What a step does to the cache and its stamps. -/
inductive CacheStep (capacity : ℕ) (s : Connection A K V D) (p : Pc A K V D)
    (s' : Connection A K V D) : Prop
  | shrink : List.Sublist s'.owner.cached s.owner.cached → s'.stamps = s.stamps →
      s'.clock = s.clock → CacheStep capacity s p s'
  | find (e : Cached K) : e ∈ s.owner.cached →
      s'.owner.cached = e :: s.owner.cached.filter (fun f => !decide (f.key = e.key)) →
      s'.stamps = Function.update s.stamps e.child s.clock → s'.clock = s.clock + 1 →
      CacheStep capacity s p s'
  | add (k : Call A K V D) (c : ℕ) : p = .call k (.adding c) →
      s'.owner.cached = ((⟨k.id, c⟩ : Cached K) :: s.owner.cached).take capacity →
      s'.stamps = Function.update s.stamps c s.clock → s'.clock = s.clock + 1 →
      CacheStep capacity s p s'

theorem CacheStep.of_custody {s : Connection A K V D} {p : Pc A K V D} {o : Owner A K}
    {q r q' r' : List ℕ} (h : Custody s.owner q r o q' r')
    {s' : Connection A K V D} (ho : s'.owner = o) (hs : s'.stamps = s.stamps)
    (hc : s'.clock = s.clock) : CacheStep capacity s p s' := by
  refine .shrink ?_ hs hc
  rw [ho]
  obtain h | h := h.cached
  · rw [h]
  · rw [h]
    exact List.nil_sublist _

theorem Pc.Move.cacheStep {s : Connection A K V D} {p : Pc A K V D}
    (hm : Pc.Move capacity a s p l s' p') (hp : p.Plain) : CacheStep capacity s p s' := by
  cases hm with
  | run k hn =>
    obtain ⟨d, -, hfind, hs⟩ | hs := k.start_cases capacity s <;> rw [hs]
    · obtain ⟨he, ho⟩ := Owner.cacheFind_some (Prod.ext rfl hfind)
      exact .find ⟨k.id, d⟩ he (by simp only [ho]) rfl rfl
    · exact .shrink (List.Sublist.refl _) rfl rfl
  | party p act o p' hmove ho _ =>
    exact .of_custody (custody_of_move hmove (hp p rfl) ho) rfl rfl rfl
  | «return» k ok => exact .shrink (List.Sublist.refl _) rfl rfl
  | call k pc l s' pc' hm =>
    cases hm
    case prepare hm hr _ => exact .of_custody (hm.custody fun _ _ _ => hr) rfl rfl rfl
    case prepared hm hr _ => exact .of_custody (hm.custody fun _ _ _ => hr) rfl rfl rfl
    case work hm _ => exact .of_custody (hm.custody (by simp)) rfl rfl rfl
    case add c => exact .add k c rfl rfl rfl rfl
    case remove c =>
      refine .shrink ?_ rfl rfl
      simp only [Owner.cacheRemove, List.partition_eq_filter_filter]
      exact List.filter_sublist
    case close hm _ _ => cases hm <;> exact .shrink (List.Sublist.refl _) rfl rfl
    all_goals exact .shrink (List.Sublist.refl _) rfl rfl

theorem InOrder.sublist {s : Connection A K V D} (hs : InOrder capacity s)
    (hc : List.Sublist s'.owner.cached s.owner.cached) (hst : s'.stamps = s.stamps)
    (hcl : s'.clock = s.clock) : InOrder capacity s' where
  keys := hs.keys.sublist (hc.map _)
  children := hs.children.sublist (hc.map _)
  length := Nat.le_trans hc.length_le hs.length
  recent := by
    rw [hst]
    exact hs.recent.sublist hc
  clock e he := by
    rw [hst, hcl]
    exact hs.clock e (hc.subset he)

/-- A new most recently used entry in front of others that were cached. -/
theorem InOrder.front {s : Connection A K V D} (hs : InOrder capacity s) {e : Cached K}
    {rest : List (Cached K)} (hr : List.Sublist rest s.owner.cached)
    (hk : ∀ f ∈ rest, f.key ≠ e.key) (hc : ∀ f ∈ rest, f.child ≠ e.child)
    (hl : rest.length + 1 ≤ capacity) (hcached : s'.owner.cached = e :: rest)
    (hst : s'.stamps = Function.update s.stamps e.child s.clock) (hcl : s'.clock = s.clock + 1) :
    InOrder capacity s' := by
  -- the entry has the newest stamp, and the others keep theirs
  have stamp : ∀ f ∈ rest, s'.stamps f.child = s.stamps f.child := fun f hf => by
    rw [hst, Function.update_of_ne (hc f hf)]
  have here : s'.stamps e.child = s.clock := by rw [hst, Function.update_self]
  constructor
  · rw [hcached, List.map_cons, List.nodup_cons]
    refine ⟨fun h => ?_, hs.keys.sublist (hr.map _)⟩
    obtain ⟨f, hf, hfe⟩ := List.mem_map.mp h
    exact hk f hf hfe
  · rw [hcached, List.map_cons, List.nodup_cons]
    refine ⟨fun h => ?_, hs.children.sublist (hr.map _)⟩
    obtain ⟨f, hf, hfe⟩ := List.mem_map.mp h
    exact hc f hf hfe
  · rw [hcached]
    exact hl
  -- most recently used first
  · rw [hcached, List.pairwise_cons]
    refine ⟨fun f hf => ?_, ?_⟩
    · rw [here, stamp f hf]
      exact hs.clock f (hr.subset hf)
    · refine (hs.recent.sublist hr).imp_of_mem fun hf hg h => ?_
      rwa [stamp _ hf, stamp _ hg]
  · intro f hf
    rw [hcl]
    obtain rfl | hf := List.mem_cons.mp (hcached ▸ hf)
    · rw [here]
      exact Nat.lt_succ_self _
    · rw [stamp f hf]
      exact Nat.lt_succ_of_lt (hs.clock f (hr.subset hf))

/-- **A step keeps the cache in order**, when it adds no key or statement twice. -/
theorem CacheStep.inOrder {s : Connection A K V D} {p : Pc A K V D}
    (h : CacheStep capacity s p s') (hs : InOrder capacity s)
    (hadd : ∀ k c, p = .call k (.adding c) → capacity ≠ 0 ∧
      (∀ e ∈ s.owner.cached, e.key ≠ k.id) ∧ ∀ e ∈ s.owner.cached, e.child ≠ c) :
    InOrder capacity s' := by
  cases h with
  | shrink hc hst hcl => exact hs.sublist hc hst hcl
  -- the found entry goes to the front; there was room for it
  | find e he hc hst hcl =>
    refine hs.front List.filter_sublist (fun f hf => ?_) (fun f hf hfe => ?_) ?_ hc hst hcl
    · simpa using (List.mem_filter.mp hf).2
    · have hk := (List.mem_filter.mp hf).2
      obtain rfl := List.inj_on_of_nodup_map hs.children (List.mem_filter.mp hf).1 he hfe
      simp at hk
    · refine Nat.le_trans (Nat.succ_le_of_lt ?_) hs.length
      exact List.length_filter_lt_length_iff_exists.mpr ⟨e, he, by simp⟩
  -- a new entry, for which the last one goes if the cache is full
  | add k c hp hc hst hcl =>
    obtain ⟨hcap, hkey, hchild⟩ := hadd k c hp
    obtain ⟨n, rfl⟩ := Nat.exists_eq_succ_of_ne_zero hcap
    rw [Nat.succ_eq_add_one, List.take_succ_cons] at hc
    have htake : List.Sublist (s.owner.cached.take n) s.owner.cached := List.take_sublist n _
    refine hs.front htake (fun f hf => hkey f (htake.subset hf))
      (fun f hf => hchild f (htake.subset hf)) ?_ hc hst hcl
    exact Nat.succ_le_succ (List.length_take_le n _)

/-! ## What a step leaves of the invariant -/

/-- A machine's step, or one that leaves what is to be closed to the call. -/
theorem Pc.Move.custody {s : Connection A K V D} {p : Pc A K V D}
    (hm : Pc.Move capacity a s p l s' p') (hp : p.Plain) :
    Custody s.owner p.asParty.queue p.asParty.popped s'.owner p'.asParty.queue
        p'.asParty.popped ∨
      p'.asParty.queue = [] ∧ p'.asParty.popped = [] := by
  cases hm with
  | run k hn =>
    obtain ⟨d, -, -, hs⟩ | hs := k.start_cases capacity s <;> rw [hs] <;>
      exact .inr ⟨rfl, rfl⟩
  | party p act o p' hmove ho _ => exact .inl (custody_of_move hmove (hp p rfl) ho)
  | «return» k ok => exact .inr ⟨rfl, rfl⟩
  | call k pc l s' pc' hm =>
    cases hm
    case prepare r hm hr _ =>
      have h := hm.custody fun _ _ _ => hr
      cases r <;> exact .inl h
    case prepared r hm hr _ =>
      have h := hm.custody fun _ _ _ => hr
      cases r <;> exact .inl h
    case work r _ _ hm _ =>
      have h := hm.custody (by simp)
      cases r <;> exact .inl h
    -- between the operations of a call the machine holds nothing
    case follow c u out hu =>
      refine .inr ⟨?_, Call.follow_popped⟩
      unfold Call.follow
      repeat' split
      all_goals rfl
    case dropped after => cases after <;> exact .inr ⟨rfl, rfl⟩
    case close r _ _ _ _ _ => cases r <;> exact .inr ⟨rfl, rfl⟩
    all_goals exact .inr ⟨rfl, rfl⟩

/-- A new child is the statement that a call has prepared. -/
theorem Pc.Move.next {s : Connection A K V D} {p : Pc A K V D}
    (hm : Pc.Move capacity a s p l s' p') (hp : p.Plain) :
    s'.owner.next = s.owner.next ∨
      ∃ k n, p = .call k (.preparing .admitted) ∧
        p' = .call k (.prepared s.owner.next .finish) ∧
        s' = { s with
          owner := s.owner.registerChild none k.transaction (k.populates capacity)
          statements := Function.update s.statements s.owner.next
            ⟨List.replicate n none, k.populates capacity⟩ } := by
  cases hm with
  | run k hn =>
    obtain ⟨d, -, hf, hs⟩ | hs := k.start_cases capacity s <;> rw [hs]
    · have ho := (Owner.cacheFind_some (Prod.ext rfl hf)).2
      exact .inl (by simp only [ho])
    · exact .inl rfl
  | party p act o p' hmove ho _ => exact .inl (custody_of_move hmove (hp p rfl) ho).next
  | «return» k ok => exact .inl rfl
  | call k pc l s' pc' hm =>
    cases hm
    -- only a preparation makes a statement
    case compile n => exact .inr ⟨k, n, rfl, rfl, rfl⟩
    case prepare hm hr _ => exact .inl (hm.custody fun _ _ _ => hr).next
    case prepared hm hr _ => exact .inl (hm.custody fun _ _ _ => hr).next
    case work hm _ => exact .inl (hm.custody (by simp)).next
    case close hm _ _ => cases hm <;> exact .inl rfl
    all_goals exact .inl rfl

/-- Whether a statement was made for the cache does not change. -/
theorem Pc.Move.flag {s : Connection A K V D} {p : Pc A K V D}
    (hm : Pc.Move capacity a s p l s' p') (hc : c < s.owner.next) :
    (s'.statements c).cached = (s.statements c).cached := by
  cases hm with
  | run k hn => obtain ⟨d, -, -, hs⟩ | hs := k.start_cases capacity s <;> rw [hs]
  | party => rfl
  | «return» => rfl
  | call k pc l s' pc' hm =>
    cases hm
    case compile n => simp [Nat.ne_of_lt hc]
    case work d u pc out act v o r _ _ _ _ =>
      by_cases hd : c = d
      · subst hd
        simp [Call.bind_cached]
      · simp [hd]
    all_goals rfl

theorem Pc.Move.closed {s : Connection A K V D} {p : Pc A K V D}
    (hm : Pc.Move capacity a s p l s' p') (hp : p.Plain) (hn : c < s.owner.next)
    (hc : (s.owner.children c).state = .closed ↔ (s.owner.children c).destroyed ≠ 0) :
    (s'.owner.children c).state = .closed ↔ (s'.owner.children c).destroyed ≠ 0 := by
  cases hm with
  | run k hk =>
    obtain ⟨d, -, hf, hs⟩ | hs := k.start_cases capacity s <;> rw [hs]
    · have ho := (Owner.cacheFind_some (Prod.ext rfl hf)).2
      simpa only [ho] using hc
    · exact hc
  | party p act o p' hmove ho _ => exact (custody_of_move hmove (hp p rfl) ho).closed hc
  | «return» k ok => exact hc
  | call k pc l s' pc' hm =>
    cases hm
    -- the new statement is another one
    case compile n => simpa [Owner.registerChild, Nat.ne_of_lt hn] using hc
    case prepare hm hr _ => exact (hm.custody fun _ _ _ => hr).closed hc
    case prepared hm hr _ => exact (hm.custody fun _ _ _ => hr).closed hc
    case work hm _ => exact (hm.custody (by simp)).closed hc
    -- a lending changes the transaction alone
    case lend d =>
      obtain ⟨hd, hs⟩ := Owner.lendChild_child s.owner c d k.transaction
      simpa only [hd, hs] using hc
    case restore d ok =>
      obtain ⟨hd, hs⟩ := Owner.lendChild_child s.owner c d none
      simpa only [hd, hs] using hc
    -- closing is not closed yet
    case force d cs after hs =>
      obtain ⟨hd, hs⟩ := Owner.markClosing_child (c := c) hs
      exact hs.trans (hc.trans (by rw [← hd]; rfl))
    case close d pc cs after act v o r cs' after' hm _ _ =>
      cases hm
      case destroy =>
        exact (Custody.destroy (q := [d]) (r := []) d rfl List.mem_cons_self
          (List.Subset.refl _) rfl).closed hc
      all_goals exact hc
    all_goals exact hc

theorem CallPc.own_cases {pc : CallPc A} (h : c ∈ pc.own) : pc.statement = some c ∨ c ∈ pc.queue := by
  cases pc with
  | dropping d fpc cs after =>
    refine .inr ?_
    cases fpc
    case finishing => exact List.mem_cons_of_mem _ h
    all_goals exact h
  | working d u pc out =>
    simp only [CallPc.own] at h
    split at h <;> simp_all [CallPc.statement]
  | worked d u out =>
    simp only [CallPc.own] at h
    split at h <;> simp_all [CallPc.statement]
  | _ => simp_all [CallPc.own, CallPc.statement, CallPc.queue]

theorem Accounted.held_step (hw : Accounted capacity w)
    (hm : Pc.Move capacity a w.shared (w.parties a) l s' p') (b : A)
    (hc : c ∈ (Function.update w.parties a p' b).held) : c < s'.owner.next := by
  have next := hw.registered.next hm
  by_cases h : b = a
  · subst h
    rw [Function.update_self] at hc
    obtain hc | hc := List.mem_append.mp hc
    · refine Nat.lt_of_lt_of_le ?_ next
      -- what a close took out of the cache was registered
      obtain hcus | ⟨-, hnil⟩ := hm.custody (hw.registered.plain b)
      · have held : ∀ d ∈ (w.parties b).asParty.popped, d < w.shared.owner.next := fun d hd =>
          hw.held b d (List.mem_append_left _ hd)
        obtain hr | hr | ⟨d, hr⟩ := hcus.popped
        · exact held c (hr ▸ hc)
        · obtain ⟨e, he, rfl⟩ := List.mem_map.mp (hr ▸ hc)
          exact hw.registered.cached e he
        · exact held c (hr ▸ List.mem_cons_of_mem _ hc)
      · rw [hnil] at hc
        cases hc
    -- what a call holds is its own statement, or what it is to destroy
    · have hk := hw.registered.known_step hm b
      rw [Function.update_self] at hk
      cases p' with
      | party p => cases hc
      | call k pc =>
        obtain h | h := CallPc.own_cases hc
        · exact hk.statement c h
        · exact hk.queue c h
  · rw [Function.update_of_ne h] at hc
    exact Nat.lt_of_lt_of_le (hw.held b c hc) next

theorem Pc.Move.short {s : Connection A K V D} {p : Pc A K V D}
    (hm : Pc.Move capacity a s p l s' p') (hs : InOrder capacity s) (hp : p.queue.length ≤ 1) :
    p'.queue.length ≤ 1 := by
  cases hm with
  | run k hn =>
    obtain ⟨d, -, -, hs⟩ | hs := k.start_cases capacity s <;> rw [hs] <;> exact Nat.zero_le _
  | party => exact Nat.zero_le _
  | «return» => exact Nat.zero_le _
  | call k pc l s' pc' hm =>
    cases hm
    case prepare r _ _ _ => cases r <;> exact Nat.zero_le _
    case prepared r _ _ _ => cases r <;> exact Nat.zero_le _
    case work r _ _ _ _ => cases r <;> exact Nat.zero_le _
    case follow c u out hu =>
      simp only [Pc.queue]
      unfold Call.follow
      repeat' split
      all_goals simp [CallPc.queue]
    -- one statement more than the cache holds: one goes
    case add d =>
      have hl := hs.length
      simp only [Pc.queue, CallPc.queue, Owner.cacheAdd, List.length_map, List.length_drop,
        List.length_cons]
      omega
    -- the keys are distinct, so that at most one has the id
    case remove d =>
      simp only [Pc.queue, CallPc.queue, Owner.cacheRemove, List.partition_eq_filter_filter,
        List.length_map]
      have h := List.nodup_iff_count_le_one.mp hs.keys k.id
      rw [List.count, List.countP_map, List.countP_eq_length_filter] at h
      simpa only [Function.comp_def, beq_eq_decide] using h
    case gone d cs after _ => exact Nat.le_of_succ_le hp
    case dropped after => cases after <;> exact Nat.zero_le _
    case close d pc cs after act v o r cs' after' _ _ ha =>
      -- what is left to close does not grow
      have hl : cs'.length ≤ cs.length := by
        obtain ⟨rfl, -⟩ | ⟨-, rfl, -⟩ := ha
        · exact Nat.le_refl _
        · exact Nat.zero_le _
      have hp : cs.length + 1 ≤ 1 := hp
      cases r with
      | none => exact Nat.le_trans hl (Nat.le_of_succ_le hp)
      | some pc' => exact Nat.le_trans (Nat.succ_le_succ hl) hp
    all_goals exact hp

theorem simple_of_move {o o' : Owner A K} {op : Resource.Operation A} {pc pc' : OpPc A} {act : Act A K}
    (h : op.Move a o pc act o' (some pc')) (hp : simple pc = true)
    (hs : ∀ c allowResult, op = .child c allowResult → pc = .admitted → act ≠ .snapshot) :
    simple pc' = true := by
  cases h
  case lent c allowResult hop _ => exact absurd rfl (hs c allowResult hop rfl)
  case own c allowResult hop _ => exact absurd rfl (hs c allowResult hop rfl)
  case failOwn hpc => rcases hpc with rfl | rfl <;> cases hp
  case failLent hpc => rcases hpc with rfl | rfl <;> cases hp
  all_goals first | rfl | cases hp

theorem Call.useAt_ne_prepare {k : Call A K V D} {i : ℕ} : k.useAt i ≠ .prepare := by
  unfold Call.useAt
  split <;> simp

theorem Call.Move.tidy {s : Connection A K V D} {k : Call A K V D} {pc pc' : CallPc A}
    (h : k.Move capacity a s pc l s' pc') (hk : pc.Tidy s)
    (hn : ∀ c, pc.statement = some c → c < s.owner.next)
    (hv : ∀ c opc out act, pc = .working c .validate opc out → l = .work act (some .raised) →
      (s.statements c).cached = false) : pc'.Tidy s' := by
  cases h
  case compile n => rfl
  case prepare pc act v o r hm _ _ =>
    cases r with
    | none => trivial
    | some pc' => exact simple_of_move hm hk (by simp)
  case prepared c pc act v o r hm _ _ =>
    cases r with
    | none => exact fun _ _ h => by cases h
    | some pc' => exact simple_of_move hm hk (by simp)
  case refuse c => exact fun _ _ h => by cases h
  case validate c _ => exact ⟨by simp, fun _ => ⟨rfl, fun _ h => by cases h⟩⟩
  case work c u pc out act v o r hp hdec hm _ =>
    obtain ⟨hu, hk⟩ := hk
    -- the operation on a new statement that is still marked as cached has not raised
    have raised : u.fresh = true → (k.bind u pc act v (s.statements c)).cached = true →
        v.getD out ≠ .raised := by
      intro hf hc hr
      rw [Call.bind_cached] at hc
      cases v with
      | none => exact (hk hf).2 hc hr
      | some x =>
        obtain rfl : x = .raised := hr
        cases u with
        | prepare => exact hu rfl
        | validate => simp [hv c pc out act rfl rfl] at hc
        | bind i => simp [Use.fresh] at hf
        | execute => simp [Use.fresh] at hf
        | consume => simp [Use.fresh] at hf
    cases r with
    | none => simpa only [CallPc.Tidy, Function.update_self, Option.elim] using raised
    | some pc' =>
      refine ⟨hu, fun hf => ⟨simple_of_move hm (hk hf).1 ?_, ?_⟩⟩
      · rintro d allowResult - rfl rfl
        have : u = .execute := by
          simp only [Use.permits, Bool.and_eq_true, decide_eq_true_eq] at hp
          exact hp.1.1
        simp [this, Use.fresh] at hf
      · simpa only [Function.update_self] using raised hf
  case follow c u out hu =>
    unfold Call.follow
    repeat' split
    case h_1.isTrue h => exact h
    case h_4 => exact ⟨Call.useAt_ne_prepare, fun h => by simp [Call.useAt_fresh] at h⟩
    case h_5 => exact ⟨by simp, fun h => by simp [Use.fresh] at h⟩
    all_goals trivial
  case skip c _ => exact fun h => by simp [Use.fresh] at h
  case ready c => exact ⟨Call.useAt_ne_prepare, fun h => by simp [Call.useAt_fresh] at h⟩
  case dropped after => cases after <;> trivial
  case close r _ _ _ _ _ => cases r <;> trivial
  all_goals trivial

theorem CallPc.Tidy.stable {s : Connection A K V D} {pc : CallPc A} (h : pc.Tidy s)
    (hf : ∀ c, pc.statement = some c → (s'.statements c).cached = (s.statements c).cached) :
    pc.Tidy s' := by
  cases pc with
  | preparing => exact h
  | prepared => exact h
  | working c u pc out => simpa only [CallPc.Tidy, hf c rfl] using h
  | worked c u out => simpa only [CallPc.Tidy, hf c rfl] using h
  | adding c => simpa only [CallPc.Tidy, hf c rfl] using h
  | _ => trivial

theorem Accounted.tidy_step (hw : Accounted capacity w) (hv : Valid w (a, l))
    (hm : Pc.Move capacity a w.shared (w.parties a) l s' p') (b : A) (k : Call A K V D)
    (pc : CallPc A) (hb : Function.update w.parties a p' b = .call k pc) : pc.Tidy s' := by
  by_cases h : b = a
  -- of the party that moves
  · subst h
    rw [Function.update_self] at hb
    have hknown := hw.registered.known b
    have htidy := hw.tidy b
    have hv : ∀ k c pc out act, w.parties b = .call k (.working c .validate pc out) →
        l = .work act (some .raised) → (w.shared.statements c).cached = false := hv
    generalize w.parties b = p at hm hknown htidy hv
    cases hm with
    | run k' hn =>
      obtain ⟨rfl, rfl⟩ := Pc.call.inj hb
      obtain ⟨d, -, -, hs⟩ | hs := k'.start_cases capacity w.shared <;> rw [hs] <;>
        trivial
    | party => cases hb
    | «return» => cases hb
    | call k' pc₀ l s' pc' hm =>
      obtain ⟨rfl, rfl⟩ := Pc.call.inj hb
      refine hm.tidy (htidy k' pc₀ rfl) (fun c hc => hknown.statement c hc) ?_
      rintro c opc out act rfl hl
      exact hv k' c opc out act rfl hl
  -- the statements of the others keep their flags
  · rw [Function.update_of_ne h] at hb
    refine (hw.tidy b k pc hb).stable fun c hc => hm.flag ?_
    exact (hw.registered.known b).statement c (by rw [hb]; exact hc)

/-- What a call comes to hold: its new statement, or what it takes out of the cache. -/
theorem Accounted.own_step (hw : Accounted capacity w)
    (hm : Pc.Move capacity a w.shared (w.parties a) l s' p') (hc : c ∈ p'.own)
    (hf : c < w.shared.owner.next → (w.shared.statements c).cached = true) :
    c ∈ (w.parties a).own ∨ c = w.shared.owner.next ∨
      (∃ k d, w.parties a = .call k (.adding d) ∧
        c ∈ (w.shared.owner.cacheAdd capacity k.id d).2) ∨
      ∃ k d, w.parties a = .call k (.removing d) ∧
        c ∈ (w.shared.owner.cacheRemove k.id).2 := by
  have hknown := hw.registered.known a
  have htidy := hw.tidy a
  generalize w.parties a = p at hm hknown htidy ⊢
  cases hm with
  | run k hn =>
    obtain ⟨d, -, -, hs⟩ | hs := k.start_cases capacity w.shared <;> rw [hs] at hc <;>
      cases hc
  | party => cases hc
  | «return» => cases hc
  | call k pc l s' pc' hm =>
    cases hm
    -- the statement that was compiled
    case compile n => exact .inr (.inl (List.mem_singleton.mp hc))
    case prepare r _ _ _ => cases r <;> cases hc
    case prepared r _ _ _ => cases r <;> exact .inl hc
    case work r _ _ _ _ => cases r <;> exact .inl hc
    case follow d u out hu =>
      obtain rfl := List.mem_singleton.mp (Call.follow_own_subset hc)
      have hfc := hf (hknown.statement c rfl)
      simp only [Pc.own, hfc, Call.follow_own hu fun hu => htidy k _ rfl hu hfc] at hc
      exact .inl hc
    -- what `cache_add` evicts, and what `cache_remove` takes out
    case add d => exact .inr (.inr (.inl ⟨k, d, rfl, hc⟩))
    case ready d => simp [Pc.own, CallPc.own, Call.useAt_fresh] at hc
    case remove d => exact .inr (.inr (.inr ⟨k, d, rfl, hc⟩))
    case gone d cs after _ => exact .inl (List.mem_cons_of_mem _ hc)
    case dropped after => cases after <;> cases hc
    -- what is left to destroy only shrinks
    case close d pc cs after act v o r cs' after' hm _ ha =>
      have hcs : cs' ⊆ cs := by
        obtain ⟨rfl, -⟩ | ⟨-, rfl, -⟩ := ha
        · exact List.Subset.refl _
        · exact List.nil_subset _
      refine .inl ?_
      cases hm
      case claim => exact List.cons_subset_cons d hcs hc
      case gone => exact List.mem_cons_of_mem _ (hcs hc)
      case destroy => exact List.mem_cons_of_mem _ (hcs hc)
      case finish => exact hcs hc
    all_goals exact .inl hc

/-- What `cache_add` evicts, no other running call works with: in a cache that is ordered by use,
`capacity - 1` of its entries were used later. -/
theorem Accounted.spared_add (hw : Accounted capacity w) (hr : Recent capacity w (a, l))
    {k : Call A K V D} {d : ℕ} (hp : w.parties a = .call k (.adding d))
    (hc : c ∈ (w.shared.owner.cacheAdd capacity k.id d).2) {b : A} (hb : b ≠ a) :
    (w.parties b).statement ≠ some c := by
  have hn := (hw.registered.known a).statement d (by rw [hp]; rfl)
  obtain ⟨n, rfl⟩ := Nat.exists_eq_succ_of_ne_zero (hw.room d hn (hw.tidy a k _ hp))
  rw [(Owner.cacheAdd_children w.shared.owner n k.id d).2, ← List.map_drop] at hc
  obtain ⟨e, he, rfl⟩ := List.mem_map.mp hc
  intro hs
  have later : n ≤ w.shared.usedAfter e.child := le_countP_of_mem_drop hw.order.recent he
  have := hr k d hp b hb e (List.mem_of_mem_drop he) hs
  omega

/-- What `cache_remove` removes, no other running call works with: it would be of the same id. -/
theorem Accounted.spared_remove (hw : Accounted capacity w) (ha : Alone w (a, l))
    {k : Call A K V D} {d : ℕ} (hp : w.parties a = .call k (.removing d))
    (hc : c ∈ (w.shared.owner.cacheRemove k.id).2) {b : A} (hb : b ≠ a) :
    (w.parties b).statement ≠ some c := by
  simp only [Owner.cacheRemove, List.partition_eq_filter_filter, List.mem_map, List.mem_filter,
    decide_eq_true_eq] at hc
  obtain ⟨e, ⟨he, hk⟩, rfl⟩ := hc
  intro hs
  cases hq : w.parties b with
  | party q => simp [hq, Pc.statement] at hs
  | call k' pc =>
    rw [hq] at hs
    exact ha k d hp b hb k' pc hq ((hw.keyed b k' pc hq e he hs).symm.trans hk) e he hs

theorem Accounted.spared_step (hw : Accounted capacity w) (hr : Recent capacity w (a, l))
    (ha : Alone w (a, l)) (hm : Pc.Move capacity a w.shared (w.parties a) l s' p') (x y : A)
    (c : ℕ) (hne : y ≠ x)
    (hc : c ∈ (Function.update w.parties a p' x).own) (hf : (s'.statements c).cached = true) :
    (Function.update w.parties a p' y).statement ≠ some c := by
  have old : c < w.shared.owner.next → (w.shared.statements c).cached = true := fun hn =>
    (hm.flag hn).symm.trans hf
  by_cases hx : x = a
  · subst hx
    rw [Function.update_self] at hc
    rw [Function.update_of_ne hne]
    intro hy
    have hn := (hw.registered.known y).statement c hy
    -- the party that moves comes to hold `c`: it compiled it, evicted it or removed it, and in
    -- each case no other call works with it
    obtain hc | rfl | ⟨k, d, hp, hc⟩ | ⟨k, d, hp, hc⟩ := hw.own_step hm hc old
    · exact hw.spared x y c hne hc (old hn) hy
    · exact Nat.lt_irrefl _ hn
    · exact hw.spared_add hr hp hc hne hy
    · exact hw.spared_remove ha hp hc hne hy
  · rw [Function.update_of_ne hx] at hc
    have hheld : c ∈ (w.parties x).held := List.mem_append_right _ hc
    have hn := hw.held x c hheld
    by_cases hy : y = a
    · subst hy
      rw [Function.update_self]
      intro hs
      -- the party that moves comes to work with `c`, which another one holds: it is not in the
      -- cache, so that the lookup has not found it
      obtain hs | ⟨rfl, -⟩ | ⟨k, -, -, -, hfind⟩ := hm.statement hs
      · exact hw.spared x y c hne hc (old hn) hs
      · exact Nat.lt_irrefl _ hn
      · have he := (Owner.cacheFind_some (Prod.ext rfl hfind)).1
        exact (hw.open_of_held hn (old hn) hheld).1 (List.mem_map.mpr ⟨_, he, rfl⟩)
    · rw [Function.update_of_ne hy]
      exact hw.spared x y c hne hc (old hn)

/-- A new statement is with the call that has prepared it. -/
theorem Accounted.located_new (hw : Accounted capacity w) {k : Call A K V D} {n : ℕ}
    (hp' : p' = .call k (.prepared w.shared.owner.next .finish))
    (hs' : s' = { w.shared with
      owner := w.shared.owner.registerChild none k.transaction (k.populates capacity)
      statements := Function.update w.shared.statements w.shared.owner.next
        ⟨List.replicate n none, k.populates capacity⟩ }) :
    (∃! p, At ⟨s', Function.update w.parties a p'⟩ w.shared.owner.next p) ∧
      (s'.owner.children w.shared.owner.next).destroyed ≤ 1 := by
  subst hp' hs'
  have h0 : ((w.shared.owner.registerChild none k.transaction (k.populates capacity)).children
      w.shared.owner.next).destroyed = 0 := by simp [Owner.registerChild]
  -- its number is new: no entry of the cache and no other party has it
  refine ⟨⟨.held a, ?_, fun q hq => ?_⟩, Nat.le_trans (Nat.le_of_eq h0) (Nat.zero_le _)⟩
  · simp [At, Pc.held, Pc.own, CallPc.own]
  · cases q with
    | cache =>
      obtain ⟨e, he, hn⟩ := List.mem_map.mp hq
      exact absurd (hw.registered.cached e he) (by omega)
    | held b =>
      by_cases hb : b = a
      · rw [hb]
      · simp only [At, Function.update_of_ne hb] at hq
        exact absurd (hw.held b _ hq) (Nat.lt_irrefl _)
    | closed => exact absurd h0 hq

theorem Accounted.located_step (hw : Accounted capacity w)
    (hm : Pc.Move capacity a w.shared (w.parties a) l s' p') (c : ℕ) (hc : c < s'.owner.next)
    (hf : (s'.statements c).cached = true) :
    (∃! p, At ⟨s', Function.update w.parties a p'⟩ c p) ∧
      (s'.owner.children c).destroyed ≤ 1 := by
  have old : c < w.shared.owner.next → (∃! p, At ⟨s', Function.update w.parties a p'⟩ c p) ∧
      (s'.owner.children c).destroyed ≤ 1 := by
    intro hn
    have hf : (w.shared.statements c).cached = true := (hm.flag hn).symm.trans hf
    exact (hw.shift hm hn hf).located (hw.located c hn hf)
  obtain hnext | ⟨k, n, hp, hp', hs'⟩ := hm.next (hw.registered.plain a)
  · exact old (hnext ▸ hc)
  · by_cases hn : c = w.shared.owner.next
    · subst hn
      exact hw.located_new hp' hs'
    · refine old ?_
      rw [hs'] at hc
      exact Nat.lt_of_le_of_ne (Nat.le_of_lt_succ hc) hn

/-- The registered children were not made for the cache. -/
theorem Pc.Move.prepared {s : Connection A K V D} {p : Pc A K V D}
    (hm : Pc.Move capacity a s p l s' p') (hp : p.Plain) (hc : c ∈ s'.owner.preparedChildren) :
    c ∈ s.owner.preparedChildren ∨
      c = s.owner.next ∧ s'.owner.next = s.owner.next + 1 ∧ (s'.statements c).cached = false := by
  cases hm with
  | run k hn =>
    obtain ⟨d, -, hf, hs⟩ | hs := k.start_cases capacity s <;> rw [hs] at hc
    · have ho := (Owner.cacheFind_some (Prod.ext rfl hf)).2
      exact .inl (by simpa only [ho] using hc)
    · exact .inl hc
  | party p act o p' hmove ho _ => exact .inl ((custody_of_move hmove (hp p rfl) ho).prepared hc)
  | «return» k ok => exact .inl hc
  | call k pc l s' pc' hm =>
    cases hm
    case compile n =>
      simp only [Owner.registerChild] at hc
      split at hc
      -- a statement for the cache is not registered
      case isTrue => exact .inl hc
      case isFalse hcached =>
        obtain rfl | hc := List.mem_cons.mp hc
        · exact .inr ⟨rfl, rfl, by simpa using hcached⟩
        · exact .inl hc
    case prepare hm hr _ => exact .inl ((hm.custody fun _ _ _ => hr).prepared hc)
    case prepared hm hr _ => exact .inl ((hm.custody fun _ _ _ => hr).prepared hc)
    case work hm _ => exact .inl ((hm.custody (by simp)).prepared hc)
    case close hm _ _ =>
      cases hm
      case destroy => exact .inl (List.mem_of_mem_filter hc)
      all_goals exact .inl hc
    all_goals exact .inl hc

theorem Accounted.prepared_step (hw : Accounted capacity w)
    (hm : Pc.Move capacity a w.shared (w.parties a) l s' p') (c : ℕ)
    (hc : c ∈ s'.owner.preparedChildren) :
    c < s'.owner.next ∧ (s'.statements c).cached = false := by
  obtain hc | ⟨rfl, hn, hf⟩ := hm.prepared (hw.registered.plain a) hc
  · obtain ⟨hn, hf⟩ := hw.prepared c hc
    exact ⟨Nat.lt_of_lt_of_le hn (hw.registered.next hm), (hm.flag hn).trans hf⟩
  · exact ⟨by omega, hf⟩

theorem Accounted.queued_step (hw : Accounted capacity w)
    (hm : Pc.Move capacity a w.shared (w.parties a) l s' p') (b : A) (c : ℕ)
    (hc : c ∈ (Function.update w.parties a p' b).asParty.queue) :
    c < s'.owner.next ∧ (s'.statements c).cached = false := by
  have old : c < w.shared.owner.next ∧ (w.shared.statements c).cached = false →
      c < s'.owner.next ∧ (s'.statements c).cached = false := fun ⟨hn, hf⟩ =>
    ⟨Nat.lt_of_lt_of_le hn (hw.registered.next hm), (hm.flag hn).trans hf⟩
  by_cases h : b = a
  · subst h
    rw [Function.update_self] at hc
    -- a close queues what was queued or registered, neither of which is for the cache
    obtain hcus | ⟨hnil, -⟩ := hm.custody (hw.registered.plain b)
    · obtain hc | hc := List.mem_append.mp (hcus.queue hc)
      · exact old (hw.queued b c hc)
      · exact old (hw.prepared c hc)
    · rw [hnil] at hc
      cases hc
  · rw [Function.update_of_ne h] at hc
    exact old (hw.queued b c hc)

theorem Accounted.popped_step (hw : Accounted capacity w)
    (hm : Pc.Move capacity a w.shared (w.parties a) l s' p') (b : A) :
    (Function.update w.parties a p' b).asParty.popped.Nodup := by
  by_cases h : b = a
  · subst h
    rw [Function.update_self]
    obtain hcus | ⟨-, hnil⟩ := hm.custody (hw.registered.plain b)
    · obtain hr | hr | ⟨d, hr⟩ := hcus.popped
      · exact hr ▸ hw.popped b
      · exact hr ▸ hw.order.children
      · have hn := hw.popped b
        rw [hr] at hn
        exact (List.nodup_cons.mp hn).2
    · rw [hnil]
      exact List.nodup_nil
  · rw [Function.update_of_ne h]
    exact hw.popped b

/-! ## The ids of the calls -/

/-- A call keeps what it has made, or has just made it, for the cache if it populates it. -/
theorem Pc.Move.made {s : Connection A K V D} {p : Pc A K V D} (hm : Pc.Move capacity a s p l s' p')
    {k : Call A K V D} {pc : CallPc A} (hp : p' = .call k pc) (hc : pc.made = some c) :
    (∃ pc', p = .call k pc' ∧ pc'.made = some c) ∨
      (s'.statements c).cached = k.populates capacity := by
  cases hm with
  | run k' hn =>
    obtain ⟨rfl, rfl⟩ := Pc.call.inj hp
    obtain ⟨d, -, -, hs⟩ | hs := k'.start_cases capacity s <;> rw [hs] at hc <;> cases hc
  | party => cases hp
  | «return» => cases hp
  | call k' pc₀ l s' pc' hm =>
    obtain ⟨rfl, rfl⟩ := Pc.call.inj hp
    cases hm
    -- the call has just made it
    case compile n =>
      obtain rfl : s.owner.next = c := Option.some.inj hc
      exact .inr (by simp)
    case prepare r _ _ _ => cases r <;> cases hc
    case prepared r _ _ _ => cases r <;> exact .inl ⟨_, rfl, hc⟩
    case work r _ _ _ _ => cases r <;> exact .inl ⟨_, rfl, hc⟩
    -- a call that goes on has made nothing since
    case follow d u out hu =>
      refine .inl ⟨_, rfl, ?_⟩
      unfold Call.follow at hc
      repeat' split at hc
      case h_4 => simp [CallPc.made, Call.useAt_fresh] at hc
      all_goals simp_all [CallPc.made, Use.fresh]
    case ready d => simp [CallPc.made, Call.useAt_fresh] at hc
    case dropped after => cases after <;> cases hc
    case close r _ _ _ _ _ => cases r <;> cases hc
    all_goals first | exact .inl ⟨_, rfl, hc⟩ | cases hc

theorem CallPc.statement_of_made {pc : CallPc A} (h : pc.made = some c) : pc.statement = some c := by
  cases pc with
  | working d u pc out =>
    simp only [CallPc.made] at h
    split at h <;> simp_all [CallPc.statement]
  | worked d u out =>
    simp only [CallPc.made] at h
    split at h <;> simp_all [CallPc.statement]
  | _ => simp_all [CallPc.made, CallPc.statement]

theorem Accounted.made_step (hw : Accounted capacity w)
    (hm : Pc.Move capacity a w.shared (w.parties a) l s' p') (b : A) (k : Call A K V D)
    (pc : CallPc A) (c : ℕ) (hb : Function.update w.parties a p' b = .call k pc)
    (hc : pc.made = some c) : (s'.statements c).cached = k.populates capacity := by
  have old : ∀ pc', w.parties b = .call k pc' → pc'.made = some c →
      (s'.statements c).cached = k.populates capacity := fun pc' hp h => by
    have hn := (hw.registered.known b).statement c (by rw [hp]; exact CallPc.statement_of_made h)
    exact (hm.flag hn).trans (hw.made b k pc' c hp h)
  by_cases h : b = a
  · subst h
    rw [Function.update_self] at hb
    obtain ⟨pc', hp, h⟩ | h := hm.made hb hc
    · exact old pc' hp h
    · exact h
  · rw [Function.update_of_ne h] at hb
    exact old pc hb hc

/-- A call that may come to `cache_add` has missed its id, or misses it now. -/
theorem Pc.Move.awaits {s : Connection A K V D} {p : Pc A K V D}
    (hm : Pc.Move capacity a s p l s' p') {id : K} (h : p'.awaits capacity id = true) :
    (p.awaits capacity id = true ∧ ∀ k c, p ≠ .call k (.adding c)) ∨
      (s.owner.cacheFind id).2 = none ∧ s'.owner = s.owner := by
  cases hm with
  -- the lookup of a call that starts has found nothing
  | run k hn =>
    simp only [Pc.awaits, Bool.and_eq_true, decide_eq_true_eq] at h
    obtain ⟨⟨rfl, hp⟩, h⟩ := h
    obtain ⟨hnone, hs⟩ := Call.start_missed hp h
    exact .inr ⟨hnone, by rw [hs]⟩
  | party => cases h
  | «return» => cases h
  | call k pc l s' pc' hm =>
    simp only [Pc.awaits, Bool.and_eq_true] at h ⊢
    obtain ⟨⟨hk, hp⟩, h⟩ := h
    refine .inl ?_
    cases hm
    case prepare r _ _ _ => cases r <;> simp_all [CallPc.missed]
    case prepared r _ _ _ => cases r <;> simp_all [CallPc.missed]
    case work r _ _ _ _ => cases r <;> simp_all [CallPc.missed]
    -- a call that may come to `cache_add` later might do so before
    case follow d u out hu =>
      unfold Call.follow at h
      repeat' split at h
      case h_4 => simp [CallPc.missed, Call.useAt_fresh] at h
      all_goals simp_all [CallPc.missed, Use.fresh]
    case ready d => simp [CallPc.missed, Call.useAt_fresh] at h
    case dropped after => cases after <;> cases h
    case close r _ _ _ _ _ => cases r <;> cases h
    all_goals simp_all [CallPc.missed, Use.fresh]

/-- A call that may still come to `cache_add` finds its id not cached. -/
theorem Accounted.missed_step (hw : Accounted capacity w) (hs : Sole capacity w (a, l))
    (hm : Pc.Move capacity a w.shared (w.parties a) l s' p') (b : A) (id : K)
    (hb : (Function.update w.parties a p' b).awaits capacity id = true) (e : Cached K)
    (he : e ∈ s'.owner.cached) : e.key ≠ id := by
  have hcached := hm.cached (hw.registered.plain a) he
  by_cases h : b = a
  · subst h
    rw [Function.update_self] at hb
    -- the call that moves awaited its id before, or misses it now
    obtain ⟨hb, hadd⟩ | ⟨hnone, ho⟩ := hm.awaits hb
    · obtain he | ⟨k, c, hp, -⟩ := hcached
      · exact hw.missed b id hb e he
      · exact absurd hp (hadd k c)
    -- an entry is added for the id: by the condition no other call awaits it
    · rintro rfl
      rw [ho] at he
      simp [Owner.cacheFind_of_mem hw.order.keys he] at hnone
  · rw [Function.update_of_ne h] at hb
    obtain he | ⟨k, c, hp, rfl⟩ := hcached
    · exact hw.missed b id hb e he
    · rintro rfl
      simp [hs k c hp b h] at hb

/-- A call works with no cached statement but one of its own id. -/
theorem Accounted.keyed_step (hw : Accounted capacity w)
    (hm : Pc.Move capacity a w.shared (w.parties a) l s' p') (b : A) (k : Call A K V D)
    (pc : CallPc A) (hb : Function.update w.parties a p' b = .call k pc) (e : Cached K)
    (he : e ∈ s'.owner.cached) (hs : pc.statement = some e.child) : e.key = k.id := by
  have hcached := hm.cached (hw.registered.plain a) he
  by_cases h : b = a
  · subst h
    rw [Function.update_self] at hb
    have old : e.child < w.shared.owner.next := by
      obtain he | ⟨k', c, hp, rfl⟩ := hcached
      · exact hw.registered.cached e he
      · exact (hw.registered.known b).statement c (by rw [hp]; rfl)
    -- the statement of the call is the one it had, a new one, or one that it finds
    obtain hs | ⟨hn, -⟩ | ⟨k', rfl, hp, -, hfind⟩ := hm.statement (by rw [hb]; exact hs)
    -- an entry added by the call itself has its id
    · obtain ⟨pc', hp⟩ | ⟨hp, -⟩ := hm.sameCall hb
      · obtain he | ⟨k', c, hp', rfl⟩ := hcached
        · exact hw.keyed b k pc' hp e he (by rwa [hp] at hs)
        · rw [hp'] at hp
          obtain ⟨rfl, -⟩ := Pc.call.inj hp
          rfl
      · simp [hp, Pc.statement] at hs
    · exact absurd hn (Nat.ne_of_lt old)
    · obtain ⟨pc', hp'⟩ | ⟨-, hl, -⟩ := hm.sameCall hb
      · simp [hp'] at hp
      · obtain rfl := Label.run.inj hl
        obtain he | ⟨k, c, hp', -⟩ := hcached
        · have hentry := (Owner.cacheFind_some (Prod.ext rfl hfind)).1
          exact congrArg Cached.key (List.inj_on_of_nodup_map hw.order.children he hentry rfl)
        · simp [hp'] at hp
  · rw [Function.update_of_ne h] at hb
    obtain he | ⟨k', c, hp, rfl⟩ := hcached
    · exact hw.keyed b k pc hb e he hs
    -- an entry added by another call: its statement is worked with by nobody else
    · have hf : (w.shared.statements c).cached = true := hw.tidy a k' _ hp
      have hown : c ∈ (w.parties a).own := by rw [hp]; exact List.mem_singleton_self c
      exact absurd (by rw [hb]; exact hs) (hw.spared a b c h hown hf)

theorem Accounted.order_step (hw : Accounted capacity w)
    (hm : Pc.Move capacity a w.shared (w.parties a) l s' p') : InOrder capacity s' := by
  refine (hm.cacheStep (hw.registered.plain a)).inOrder hw.order fun k c hp => ?_
  have hn : c < w.shared.owner.next := (hw.registered.known a).statement c (by rw [hp]; rfl)
  have hf : (w.shared.statements c).cached = true := hw.tidy a k _ hp
  have hheld : c ∈ (w.parties a).held := by
    rw [hp]
    exact List.mem_append_right _ (List.mem_singleton_self c)
  have awaits : (w.parties a).awaits capacity k.id = true := by
    simp [hp, Pc.awaits, CallPc.missed, ← hw.made a k _ c hp rfl, hf]
  refine ⟨hw.room c hn hf, hw.missed a k.id awaits, fun e he hec => ?_⟩
  exact (hw.open_of_held hn hf hheld).1 (List.mem_map.mpr ⟨e, he, hec⟩)

/-- **A step with the conditions keeps the invariant.** -/
theorem Accounted.step (hw : Accounted capacity w) (hs : Sole capacity w (a, l))
    (hr : Recent capacity w (a, l)) (ha : Alone w (a, l)) (hv : Valid w (a, l))
    (hm : Pc.Move capacity a w.shared (w.parties a) l s' p') :
    Accounted capacity ⟨s', Function.update w.parties a p'⟩ where
  registered := hw.registered.step hm
  order := hw.order_step hm
  flagged e he := by
    obtain he | ⟨k, c, hp, rfl⟩ := hm.cached (hw.registered.plain a) he
    · exact (hm.flag (hw.registered.cached e he)).trans (hw.flagged e he)
    · have hn := (hw.registered.known a).statement c (by rw [hp]; rfl)
      exact (hm.flag hn).trans (hw.tidy a k _ hp)
  -- a statement is marked as cached only when the cache has room for one
  room c hc hf := by
    obtain hnext | ⟨k, n, -, -, hs'⟩ := hm.next (hw.registered.plain a)
    · have hn : c < w.shared.owner.next := hnext ▸ hc
      exact hw.room c hn ((hm.flag hn).symm.trans hf)
    · by_cases hn : c < w.shared.owner.next
      · exact hw.room c hn ((hm.flag hn).symm.trans hf)
      · have hc : c < w.shared.owner.next + 1 := by
          rw [hs'] at hc
          exact hc
        obtain rfl : c = w.shared.owner.next := by omega
        simp only [hs', Function.update_self, Call.populates, Call.caches, Bool.and_eq_true,
          decide_eq_true_eq] at hf
        exact hf.1.2
  -- a statement that does not exist yet is not closed by its registration
  closed c hc := by
    obtain hnext | ⟨k, n, -, -, hs'⟩ := hm.next (hw.registered.plain a)
    · have hn : c < w.shared.owner.next := hnext ▸ hc
      exact hm.closed (hw.registered.plain a) hn (hw.closed c hn)
    · by_cases hn : c < w.shared.owner.next
      · exact hm.closed (hw.registered.plain a) hn (hw.closed c hn)
      · have hc : c < w.shared.owner.next + 1 := by
          rw [hs'] at hc
          exact hc
        obtain rfl : c = w.shared.owner.next := by omega
        simp [hs', Owner.registerChild]
  located := hw.located_step hm
  popped := hw.popped_step hm
  held b c hc := hw.held_step hm b hc
  prepared := hw.prepared_step hm
  queued := hw.queued_step hm
  short b := by
    show (Function.update w.parties a p' b).queue.length ≤ 1
    by_cases h : b = a
    · subst h
      rw [Function.update_self]
      exact hm.short hw.order (hw.short b)
    · rw [Function.update_of_ne h]
      exact hw.short b
  tidy := hw.tidy_step hv hm
  spared := hw.spared_step hr ha hm
  made := hw.made_step hm
  missed := hw.missed_step hs hm
  keyed := hw.keyed_step hm

end step

/-- The conditions on the steps together. -/
def Careful (capacity : ℕ) (w : World (Connection A K V D) A (Pc A K V D))
    (l : A × Label A K V D) : Prop :=
  Sole capacity w l ∧ Recent capacity w l ∧ Alone w l ∧ Valid w l

theorem accounted_of_reachable {w : World (Connection A K V D) A (Pc A K V D)}
    (h : (requests A K V D capacity).system.Reachable (Careful capacity) w) :
    Accounted capacity w := by
  refine h.induction (fun w hw => ?_) fun w l w' hw hg hs => ?_
  · obtain ⟨hs, hp⟩ := hw
    have hs : w.shared = .fresh := hs
    have hp : ∀ a, w.parties a = .party .out := hp
    constructor
    · exact registered_of_start hs hp
    · constructor <;> simp [hs, Connection.fresh, Owner.fresh]
    all_goals simp [hs, hp, Connection.fresh, Owner.fresh, Pc.held, Pc.own, Pc.queue, Pc.asParty,
      Party.popped, Party.queue, Party.wreck]
  · obtain ⟨s, p, hstep, rfl⟩ := Interleaving.system_step hs
    exact hw.step hg.1 hg.2.1 hg.2.2.1 hg.2.2.2 (Pc.move_of_step hstep)

/-- **The statement cache**: in every run whose steps meet the conditions the cache's keys are
distinct, it fits, it is ordered by use, each statement made for it is in the cache, with one party
or closed once, a cached key is found, and what a call is to close no other works with. -/
theorem cache_kept {w : World (Connection A K V D) A (Pc A K V D)}
    (h : (requests A K V D capacity).system.Reachable (Careful capacity) w) :
    (w.shared.owner.cached.map (·.key)).Nodup ∧
    w.shared.owner.cached.length ≤ capacity ∧
    (w.shared.owner.cached.Pairwise fun e f =>
      w.shared.stamps f.child < w.shared.stamps e.child) ∧
    (∀ c < w.shared.owner.next, (w.shared.statements c).cached = true →
      (∃! p, At w c p) ∧ (w.shared.owner.children c).destroyed ≤ 1) ∧
    (∀ e ∈ w.shared.owner.cached, (w.shared.owner.cacheFind e.key).2 = some e.child) ∧
    ∀ a b c, b ≠ a → c ∈ (w.parties a).own → (w.shared.statements c).cached = true →
      (w.parties b).statement ≠ some c := by
  have hw := accounted_of_reachable h
  exact ⟨hw.order.keys, hw.order.length, hw.order.recent, hw.located,
    fun e he => Owner.cacheFind_of_mem hw.order.keys he, hw.spared⟩

/-! ## Runs without the conditions -/

/-- The keys of the cache, how often the statement 0 has been closed, and what the second party works
with. -/
def cacheOf (w : World (Connection (Fin 3) ℕ ℕ single) (Fin 3) (Pc (Fin 3) ℕ ℕ single)) :
    List ℕ × ℕ × Option ℕ :=
  (w.shared.owner.cached.map (·.key), (w.shared.owner.children 0).destroyed, (w.parties 1).statement)

/-- The conditions on a step of one of three parties that removes nothing. -/
def careful (w : World (Connection (Fin 3) ℕ ℕ single) (Fin 3) (Pc (Fin 3) ℕ ℕ single)) :
    Fin 3 × Label (Fin 3) ℕ ℕ single → Bool
  | (a, l) =>
    (match w.parties a with
      | .call k (.adding _) => (List.finRange 3).all fun b => b = a ||
          !(w.parties b).awaits 2 k.id && w.shared.owner.cached.all fun e =>
            (w.parties b).statement ≠ some e.child || w.shared.usedAfter e.child + 1 < 2
      | .call _ (.removing _) => false
      | _ => true) && !(l matches .work _ (some .raised))

theorem careful_of_check (w : World (Connection (Fin 3) ℕ ℕ single) (Fin 3) (Pc (Fin 3) ℕ ℕ single))
    (l : Fin 3 × Label (Fin 3) ℕ ℕ single) (h : careful w l = true) : Careful 2 w l := by
  obtain ⟨a, l⟩ := l
  simp only [careful, Bool.and_eq_true, Bool.not_eq_true'] at h
  obtain ⟨h, hraised⟩ := h
  refine ⟨fun k c hp b hb => ?_, fun k c hp b hb e he hs => ?_, fun k c hp => ?_,
    fun k c pc out act _ hl => ?_⟩
  · simp only [hp, List.all_eq_true] at h
    have := h b (List.mem_finRange b)
    simp_all
  · simp only [hp, List.all_eq_true, Bool.or_eq_true, Bool.and_eq_true, decide_eq_true_eq] at h
    obtain rfl | h := h b (List.mem_finRange b)
    · exact absurd rfl hb
    · exact (h.2 e he).resolve_left fun hne => hne hs
  · simp [hp] at h
  · simp only at hl
    simp [hl] at hraised

/-- `cache_add` closes a statement that was taken back, and takes another's place for it. -/
def evicts : List (Label (Fin 3) ℕ ℕ single) :=
  [.next, .next, .work .ok none, .work .ok none, .work .ok none, .next, .next]

/-- In a cache of two, one call has returned, a second works with its statement, and a third caches
its own: the statement of the first is closed. -/
theorem cache_kept_evicting : ∃ w, (requests (Fin 3) ℕ ℕ single 2).system.Reachable (Careful 2) w ∧
    cacheOf w = ([2, 1], 1, some 1) ∧ (w.shared.owner.cached.map (·.key)).Nodup ∧
    (∃! p, At w 0 p) := by
  obtain ⟨w, hw, hc⟩ := System.exists_reachable_of_execWithin
    (S := (requests (Fin 3) ℕ ℕ single 2).system)
    (l := runs 0 (completes (callOf 0 7 none)) ++
      runs 1 (prepares (callOf 1 8 none) success ++ caches) ++
      runs 2 (prepares (callOf 2 9 none) success ++ evicts))
    (f := fun w => (cacheOf w, w.shared.owner.next, (w.shared.statements 0).cached))
    (b := (([2, 1], 1, some 1), 3, true)) careful_of_check fresh_start rfl
  simp only [Prod.mk.injEq] at hc
  obtain ⟨hc, hn, hf⟩ := hc
  have h := cache_kept hw
  exact ⟨w, hw, hc, h.1, (h.2.2.2.1 0 (by omega) hf).1⟩

/-- **Without the conditions the cache breaks**: two calls that miss the same key cache it twice, and
no lookup finds it any more; an eviction closes the statement that another call is about to bind,
which is then refused; and a validation that raises loses its statement. -/
theorem cache_broken :
    (∃ w, (requests ℕ ℕ ℕ single 2).system.Reachable Guard.free w ∧
      w.shared.owner.cached.map (·.key) = [0, 0] ∧
      (w.shared.owner.cacheFind 0).2 = none) ∧
    (∃ w, (requests ℕ ℕ ℕ single 1).system.Reachable Guard.free w ∧
      (w.shared.owner.children 0).destroyed = 1 ∧ (w.parties 0).statement = some 0 ∧
      (w.shared.owner.childOpen 0) = false) ∧
    ∃ w : World (Connection Unit ℕ ℕ single) Unit (Pc Unit ℕ ℕ single),
      (requests Unit ℕ ℕ single 1).system.Reachable Guard.free w ∧
      (w.shared.statements 0).cached = true ∧ 0 < w.shared.owner.next ∧ ∀ p, ¬ At w 0 p := by
  refine ⟨?_, ?_, ?_⟩
  -- both calls miss the id before either of them adds its statement
  · obtain ⟨w, hw, h⟩ := System.exists_reachable_of_exec
      (S := (requests ℕ ℕ ℕ single 2).system)
      (l := runs 0 (prepares (callOf 0 7 none) success) ++
        runs 1 (prepares (callOf 0 9 none) success ++ [.next]) ++ runs 0 [.next])
      (f := fun w => (w.shared.owner.cached.map (·.key), (w.shared.owner.cacheFind 0).2))
      (b := ([0, 0], none)) fresh_start rfl
    exact ⟨w, hw, congrArg Prod.fst h, congrArg Prod.snd h⟩
  -- the second call evicts the statement of the first, which is about to be bound
  · obtain ⟨w, hw, h⟩ := System.exists_reachable_of_exec
      (S := (requests ℕ ℕ ℕ single 1).system)
      (l := runs 0 (prepares (callOf 0 7 none) success ++ caches) ++
        runs 1 (prepares (callOf 1 9 none) success ++
          [.next, .next, .work .ok none, .work .ok none]))
      (f := fun w => ((w.shared.owner.children 0).destroyed, (w.parties 0).statement,
        w.shared.owner.childOpen 0))
      (b := (1, some 0, false)) fresh_start rfl
    obtain ⟨hd, hs⟩ := Prod.mk.inj h
    obtain ⟨hs, ho⟩ := Prod.mk.inj hs
    exact ⟨w, hw, hd, hs, ho⟩
  -- a validation raises, and the call ends without its statement
  · obtain ⟨w, hw, h⟩ := System.exists_reachable_of_exec
      (S := (requests Unit ℕ ℕ single 1).system)
      (l := runs () (prepares (callOf 0 7 none) (.work .error (some .raised))))
      (f := fun w => ((w.shared.statements 0).cached, w.shared.owner.next,
        w.shared.owner.cached.map (·.child), (w.parties ()).held,
        (w.shared.owner.children 0).destroyed))
      (b := (true, 1, [], [], 0)) fresh_start rfl
    simp only [Prod.mk.injEq] at h
    obtain ⟨hf, hn, hc, hh, hd⟩ := h
    refine ⟨w, hw, hf, by omega, fun p hp => ?_⟩
    cases p with
    | cache => simp [At, hc] at hp
    | held a => simp [At, hh] at hp
    | closed => exact hp hd

end DuckdbMl.Request
