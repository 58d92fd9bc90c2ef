import DuckdbMl.Native.Binding

/-!
# What the parts of a call keep

## Main definitions

* `Safe P c Q`: from a state of `P` the call touches no freed shell, does not abort, and returns in
  a state of `Q`
* `Own`: the invariant, and what is known of one cell

## Main results

* `safe_drop`, `safe_take`, `safe_resize`: resources acquired and released
* `safe_databaseUnref`, `safe_connectionDelete`: references given up
-/

namespace DuckdbMl.Native

open Effects

variable {α β : Type} {P P' : Heap → Prop} {Q Q' : α → Heap → Prop} {R : β → Heap → Prop}

/-- From a state of `P` the call touches no freed shell and does not abort, and returns in a state
of `Q`. The safe layer may refuse to make it. -/
def Safe (P : Heap → Prop) (c : Call α) (Q : α → Heap → Prop) : Prop :=
  Triple P c fun r h => match r with
    | .ok a => Q a h
    | .error e => e = .refused

namespace Safe

variable {c : Call α}

theorem bind {k : α → Call β} (hc : Safe P c Q) (hk : ∀ a, Safe (Q a) (k a) R) :
    Safe P (c >>= k) R :=
  Triple.bind hc (fun _ _ h => h) hk

theorem conseq (h : Safe P' c Q') (hp : ∀ h, P h → P' h) (hq : ∀ a h, Q' a h → Q a h) :
    Safe P c Q :=
  Triple.conseq h hp fun r s hr => match r with
    | .ok a => hq a s hr
    | .error _ => hr

theorem pre (h : Safe P' c Q) (hp : ∀ h, P h → P' h) : Safe P c Q := h.conseq hp fun _ _ h => h

theorem post (h : Safe P c Q') (hq : ∀ a h, Q' a h → Q a h) : Safe P c Q :=
  h.conseq (fun _ h => h) hq

theorem pure {a : α} (h : ∀ s, P s → Q a s) : Safe P (Pure.pure a : Call α) Q := h

theorem of_ok (h : ∀ s, P s → ∃ a t, c s = (.ok a, t) ∧ Q a t) : Safe P c Q := by
  intro s hs
  obtain ⟨a, t, hct, ha⟩ := h s hs
  rw [hct]
  exact ha

/-- A fact that follows from the state before is a hypothesis. -/
theorem of_fact {p : Prop} (hp : ∀ s, P s → p) (h : p → Safe P c Q) : Safe P c Q :=
  fun s hs => h (hp s hs) s hs

theorem modify {f : Heap → Heap} {Q : Unit → Heap → Prop} (h : ∀ s, P s → Q () (f s)) :
    Safe P (Comp.modify f) Q := h

theorem ite {p : Prop} [Decidable p] {d : Call α} (hc : p → Safe P c Q) (hd : ¬p → Safe P d Q) :
    Safe P (if p then c else d) Q := by
  split
  case isTrue h => exact hc h
  case isFalse h => exact hd h

theorem when {condition : Bool} {c : Call Unit} {Q : Unit → Heap → Prop}
    (hc : condition = true → Safe P c Q) (hd : condition = false → ∀ s, P s → Q () s) :
    Safe P (Comp.when condition c) Q :=
  ite hc fun h => hd (Bool.eq_false_iff.mpr h)

theorem choose {b : Heap → Bool} {d : Call α} (hc : Safe (fun h => P h ∧ b h = true) c Q)
    (hd : Safe P d Q) : Safe P (fun h => if b h then c h else d h) Q := by
  intro h hp
  by_cases hb : b h = true
  · simpa only [if_pos hb] using hc h ⟨hp, hb⟩
  · simpa only [if_neg hb] using hd h hp

theorem refuse : Safe P (Comp.raise .refused) Q :=
  fun _ _ => rfl

theorem require {stop : Stop} {condition : Bool} (hc : ∀ s, P s → condition = true) :
    Safe P (require stop condition) fun _ => P := by
  refine of_fact hc fun hc => ?_
  rw [Native.require, if_pos hc]
  exact pure fun _ hs => hs

end Safe

variable {past : Past} {g : Pending} {h : Heap} {s : Shell} {x : Cell} {f : Field}
  {absent : List Field}

theorem safe_deref (hp : ∀ h, P h → ∃ x, h.cells s = some x) :
    Safe P (deref s) fun x h => P h ∧ h.cells s = some x := by
  refine Safe.of_ok fun h hh => ?_
  obtain ⟨x, hx⟩ := hp h hh
  exact ⟨x, h, by simp [deref, hx], hh, hx⟩

/-- The cell of a shell is known. -/
theorem Safe.known {k : Cell → Call β} (hp : ∀ h, P h → h.cells s = some x)
    (hk : Safe P (k x) R) : Safe P (deref s >>= k) R := by
  refine Safe.bind (safe_deref fun h hh => ⟨x, hp h hh⟩) fun y => ?_
  refine Safe.of_fact (fun h hh => Option.some.inj (hh.2.symm.trans (hp h hh.1))) fun hy => ?_
  subst hy
  exact hk.pre fun _ hh => hh.1

/-! ### Resources -/

/-- The cell of `s` is `x` but for what it holds, and certain fields are not set. -/
structure Own (past : Past) (g : Pending) (s : Shell) (x : Cell) (absent : List Field)
    (h : Heap) : Prop where
  inv : Inv past g h
  cell : ∃ held, h.cells s = some { x with held := held } ∧ ∀ f ∈ absent, f ∉ held

theorem Own.of_cell (hi : Inv past g h) (hx : h.cells s = some x)
    (ha : ∀ f ∈ absent, f ∉ x.held) : Own past g s x absent h :=
  ⟨hi, x.held, hx, ha⟩

theorem Own.start (hi : Inv past g h) (hx : h.cells s = some x) : Own past g s x [] h :=
  Own.of_cell hi hx nofun

/-- Which of some fields are not set, the cell shows. -/
theorem Own.missing (fs : List Field) (hi : Inv past g h) (hx : h.cells s = some x) :
    Own past g s x (fs.filter (· ∉ x.held)) h :=
  Own.of_cell hi hx fun _ hf => of_decide_eq_true (List.mem_filter.mp hf).2

theorem Own.exists_cell (ho : Own past g s x absent h) : ∃ y, h.cells s = some y :=
  have ⟨_, hx, _⟩ := ho.cell
  ⟨_, hx⟩

theorem Own.mono {absent' : List Field} (ho : Own past g s x absent h)
    (hsub : ∀ f ∈ absent', f ∈ absent) : Own past g s x absent' h :=
  ⟨ho.inv, ho.cell.imp fun _ hx => ⟨hx.1, fun f hf => hx.2 f (hsub f hf)⟩⟩

/-- What a cell holds changes, and the counters follow. -/
theorem Inv.hold {h' : Heap} {held held' : Finset Field} (hi : Inv past g h)
    (hx : h.cells s = some { x with held := held }) (hc : Changed h h' s { x with held := held' })
    (hfields : held' ⊆ s.fields) (hbare : s ∈ g.bare → held'.card ≤ held.card)
    (hlive : h'.live + held.card = h.live + held'.card)
    (hhandle : HandleOk past g s { x with held := held' } h'.seen) : Inv past g h' := by
  refine hi.update hc hx rfl rfl rfl ⟨hfields, fun hcap => hi.capacity s _ hx hcap, fun hs => ?_,
    fun hd hcl => hi.closed s _ hx hd hcl⟩ (fun _ _ => rfl) ?_ hhandle
  · simpa [weight] using hbare hs
  · simp only [weight]
    push_cast
    omega

/-- The engine handle of `s` may go. -/
def Closable (g : Pending) (s : Shell) (x : Cell) (f : Field) : Prop :=
  s.handle = some f → x.closing = true ∨ s ∈ g.dying

theorem safe_drop (hclose : Closable g s x f) :
    Safe (Own past g s x absent) (drop s f) fun _ => Own past g s x (f :: absent) := by
  refine Safe.of_ok fun h ho => ?_
  obtain ⟨held, hx, habsent⟩ := ho.cell
  by_cases hf : f ∈ held
  -- the field is not there: nothing is dropped
  case neg =>
    refine ⟨(), h, by simp [drop, bind, Comp.andThen, deref, hx, hf, pure, Comp.ret], ho.inv, held,
      hx, ?_⟩
    simpa using ⟨hf, habsent⟩
  have hcard := Finset.card_erase_add_one hf
  have hgone : ∀ e ∈ f :: absent, e ∉ held.erase f := by
    simpa using fun e he _ => habsent e he
  have hfields := (Finset.erase_subset f held).trans (ho.inv.fields s _ hx)
  have hok := ho.inv.handleOk hx
  by_cases hhandle : s.handle = some f
  -- the handle is cleared, which is seen
  case pos =>
    refine ⟨(), _, by
      simp [drop, bind, Comp.andThen, deref, hx, hf, hhandle, put, Heap.put, note, released,
        Comp.modify]
      rfl, ?_, held.erase f, Function.update_self .., hgone⟩
    refine ho.inv.hold hx ⟨rfl, rfl, rfl, fun _ => rfl, fun t ht => ?_⟩ hfields (fun _ => by omega)
      (by dsimp only; omega) ⟨fun e he => ?_, fun e he hd hopen => ?_,
        fun c hc hd hcl hp he => ?_, hok.shut⟩
    · exact ⟨rfl, Function.update_of_ne (by simpa using ht) _ _⟩
    · obtain rfl : e = f := Option.some.inj (he.symm.trans hhandle)
      have := hok.once e he
      simp only [Function.update_self, if_pos hf, Finset.notMem_erase, if_false] at this ⊢
      exact this
    · rcases hclose hhandle with hcl | hcl
      · exact absurd hcl (by simpa using hopen)
      · exact absurd hcl hd
    · exact hok.cut c hc hd hcl hp (Finset.mem_of_mem_erase he)
  -- another field: the handle stays as it is
  case neg =>
    refine ⟨(), _, by
      simp [drop, bind, Comp.andThen, deref, hx, hf, hhandle, put, Heap.put, released, Comp.modify]
      rfl, ?_, held.erase f, Function.update_self .., hgone⟩
    have hmem : ∀ e, s.handle = some e → (e ∈ held.erase f ↔ e ∈ held) := by
      intro e he
      have : e ≠ f := fun h => hhandle (h ▸ he)
      simp [this]
    refine ho.inv.hold hx ⟨rfl, rfl, rfl, fun _ => rfl, fun _ _ => ⟨rfl, rfl⟩⟩ hfields
      (fun _ => by omega) (by dsimp only; omega) ⟨fun e he => ?_, fun e he hd hopen ho => ?_,
        fun c hc hd hcl hp he => ?_, hok.shut⟩
    · simp only [hmem e he]
      exact hok.once e he
    · exact (hmem e he).mpr (hok.kept e he hd hopen ho)
    · exact hok.cut c hc hd hcl hp (Finset.mem_of_mem_erase he)

theorem safe_drops {fs : List Field} (hclose : ∀ f ∈ fs, Closable g s x f) :
    Safe (Own past g s x absent) (drops s fs) fun _ =>
      Own past g s x (fs ++ absent) := by
  induction fs generalizing absent with
  | nil => exact Safe.pure fun _ h => h
  | cons f fs ih =>
    refine Safe.bind (safe_drop (hclose f (by simp))) fun _ => ?_
    refine (ih fun e he => hclose e (by simp [he])).post fun _ _ h => h.mono ?_
    simp only [List.mem_append, List.mem_cons]
    tauto

/-- A field that is not the engine handle. -/
theorem closable_of_ne (hf : s.handle ≠ some f) : Closable g s x f := fun h => absurd h hf

/-- One more reference to a shell, which is owed. -/
theorem Inv.addRef {h' : Heap} {y : Cell} {q : Shell} (hi : Inv past .none h)
    (hy : h.cells q = some y) (hk : q.counted = true)
    (hc : Changed h h' q { y with references := y.references + 1 }) (hlive : h'.live = h.live)
    (hseen : h'.seen = h.seen) : Inv past ⟨some q, none, ∅, ∅⟩ h' := by
  have hok := hi.handleOk hy
  refine hi.change (some q) hc hy rfl rfl rfl
    ⟨hi.fields q y hy, hi.capacity q y hy, fun _ => le_rfl, hi.closed q y hy⟩ (fun _ hd => ?_)
    (fun p hp => ?_)
    (fun p hp => ?_) (by rw [hlive]; rfl) (hseen ▸ ⟨hok.once, hok.kept, hok.cut, hok.shut⟩)
  · obtain ⟨heq, -⟩ := hi.counted q y hy hk hd
    refine ⟨?_, Nat.succ_pos _⟩
    simp [Pending.owes, Pending.none] at heq ⊢
    omega
  · simp [Pending.owes, Pending.none, Ne.symm hp]
  · obtain rfl := Option.some.inj hp
    exact ⟨hk, Finset.notMem_empty _, y, hy⟩

/-- The call leaves the shell and the slot. -/
def Leaves (s : Shell) (c : Call α) : Prop :=
  ∀ h, (c h).2.cells s = h.cells s ∧ (c h).2.slot s = h.slot s

namespace Leaves

variable {t : Shell} {c : Call α}

theorem bind {k : α → Call β} (hc : Leaves s c) (hk : ∀ a, Leaves s (k a)) :
    Leaves s (c >>= k) := by
  intro h
  have hch := hc h
  show (Comp.andThen c k h).2.cells s = _ ∧ (Comp.andThen c k h).2.slot s = _
  unfold Comp.andThen
  split
  case h_1 a u hu =>
    rw [hu] at hch
    exact ⟨(hk a u).1.trans hch.1, (hk a u).2.trans hch.2⟩
  case h_2 e u hu =>
    rw [hu] at hch
    exact hch

theorem deref : Leaves s (deref t) := by
  intro h
  unfold Native.deref
  split <;> exact ⟨rfl, rfl⟩

theorem put (ht : s ≠ t) : Leaves s (put t x) := fun h => ⟨Heap.put_of_ne ht h x, rfl⟩

theorem ite {p : Prop} [Decidable p] {d : Call α} (hc : Leaves s c) (hd : Leaves s d) :
    Leaves s (if p then c else d) := by
  split
  · exact hc
  · exact hd

theorem nothing : Leaves s (Pure.pure () : Call Unit) := fun _ => ⟨rfl, rfl⟩

theorem require {stop : Stop} {condition : Bool} : Leaves s (require stop condition) :=
  ite nothing fun _ => ⟨rfl, rfl⟩

theorem drop (ht : s ≠ t) : Leaves s (drop t f) := by
  refine bind deref fun x => ite (bind (put ht) fun _ => ?_) nothing
  have hreleased : Leaves s released := fun _ => ⟨rfl, rfl⟩
  by_cases hh : t.handle = some f
  · simp only [if_pos hh]
    exact bind (fun _ => ⟨rfl, rfl⟩) fun _ => hreleased
  · simp only [if_neg hh]
    exact hreleased

theorem drops (ht : s ≠ t) (fs : List Field) : Leaves s (drops t fs) := by
  induction fs with
  | nil => exact nothing
  | cons f fs ih => exact bind (drop ht) fun _ => ih

theorem free (ht : s ≠ t) : Leaves s (free t) :=
  bind deref fun _ => bind (fun _ => ⟨Function.update_of_ne ht _ _, rfl⟩) fun _ =>
    bind (fun _ => ⟨rfl, rfl⟩) fun _ _ => ⟨rfl, rfl⟩

theorem databaseUnref {q : Option Shell} (hq : q ≠ some s) : Leaves s (databaseUnref q) := by
  cases q with
  | none => exact nothing
  | some d =>
    have hd : s ≠ d := fun h => hq (congrArg some h.symm)
    exact bind deref fun _ => bind (put hd) fun _ =>
      ite (bind (drops hd _) fun _ => free hd) nothing

theorem connectionClear (ht : s ≠ t) : Leaves s (connectionClear t) :=
  bind deref fun _ => bind require fun _ =>
    bind (bind deref fun _ => put ht) fun _ => bind (drops ht _) fun _ => drop ht

end Leaves

end DuckdbMl.Native
