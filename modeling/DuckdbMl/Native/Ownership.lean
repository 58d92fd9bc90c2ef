import DuckdbMl.Native.Calls
import Mathlib.Algebra.BigOperators.Group.Finset.Basic
import Mathlib.Algebra.Order.Group.Int

/-!
# Ownership of the native shells

The invariant of the native state, also in the middle of a release: a call may be about to give up
a reference, to empty a slot or to free a shell whose last reference is gone.

## Main definitions

* `Heap.tally`, `Heap.total`: the references that shells hold, and the resources they hold
* `Pending`: what a call is about to give up
* `Inv`: the invariant

## Main results

* `Inv.change`, `Inv.update`: a change within a cell
* `Inv.doom`, `Inv.freedShell`: a shell about to be freed, and freed
* `Inv.releaseSlot`, `Inv.emptied`: a slot about to be emptied, and emptied
-/

namespace DuckdbMl.Native

/-- Two sums whose terms agree but at one index. -/
theorem sum_add_eq_sum_add {α M : Type} [DecidableEq α] [AddCommMonoid M] {s : Finset α}
    {f g : α → M} {a : α} (ha : a ∈ s) (h : ∀ b ∈ s, b ≠ a → f b = g b) :
    ∑ b ∈ s, g b + f a = ∑ b ∈ s, f b + g a := by
  have herase : ∑ b ∈ s.erase a, f b = ∑ b ∈ s.erase a, g b :=
    Finset.sum_congr rfl fun b hb => h b (Finset.mem_of_mem_erase hb) (Finset.ne_of_mem_erase hb)
  rw [← Finset.add_sum_erase s f ha, ← Finset.add_sum_erase s g ha, herase, add_comm (g a),
    add_comm (f a), add_right_comm]

/-! ### References and resources -/

/-- Databases and connections are counted. -/
def Shell.counted : Shell → Bool
  | .database _ | .connection _ => true
  | _ => false

/-- Whom a shell may retain. -/
def Shell.RetainedBy : Shell → Shell → Prop
  | .database _, .connection _ => True
  | .connection _, .prepared _ | .connection _, .appender _ | .connection _, .work _
  | .connection _, .request _ => True
  | _, _ => False

/-- What a shell of each kind holds. -/
def Shell.fields : Shell → Finset Field
  | .database _ => {.database, .config, .path}
  | .connection _ => {.connection, .sql, .extracted, .prepared, .result}
  | .prepared _ => {.chunk, .vectors, .result, .prepared, .extracted, .input}
  | .appender _ => {.appender, .staged, .logical, .schema, .table, .types, .nullable}
  | .work _ => {.source, .destination}
  | .request _ => ∅

/-- The resources of a shell, itself included. -/
def weight : Option Cell → ℕ
  | none => 0
  | some x => 1 + x.held.card + x.capacity

namespace Heap

variable (h : Heap)

/-- The reference of a shell to `q`, none once it is about to be freed. -/
def retains (dying : Finset Shell) (q s : Shell) : ℕ :=
  if s ∉ dying ∧ (h.cells s).bind Cell.parent = some q then 1 else 0

/-- The shells that retain `q`. -/
def tally (dying : Finset Shell) (q : Shell) : ℕ := ∑ s ∈ h.born, h.retains dying q s

/-- The resources that are allocated. -/
def total : ℕ := ∑ s ∈ h.born, weight (h.cells s)

/-- The reference of a slot. -/
def slotRef (released : Option Shell) (q : Shell) : ℕ :=
  if h.slot q = true ∧ released ≠ some q then 1 else 0

end Heap

/-- What a call is about to give up: a reference, a slot, and shells, some of which hold nothing
any more. -/
structure Pending where
  owed : Option Shell
  released : Option Shell
  dying : Finset Shell
  bare : Finset Shell

/-- Nothing is pending between calls. -/
def Pending.none : Pending := ⟨.none, .none, ∅, ∅⟩

def Pending.owes (g : Pending) (q : Shell) : ℕ := if g.owed = some q then 1 else 0

/-- What came before: the counter of live resources at the start, the owners that have been closed
explicitly, the connections that have been disconnected, each with how often it had been connected,
and those about to be disconnected. -/
structure Past where
  live : ℤ
  closed : Set Shell
  shut : ℕ → Option ℕ
  parting : Set ℕ

/-- Nothing has been disconnected so far. -/
def Past.start (live : ℤ) (closed : Set Shell) : Past := ⟨live, closed, fun _ => none, ∅⟩

/-- The counter of live resources runs ahead. -/
def Past.plus (past : Past) (k : ℤ) : Past := { past with live := past.live + k }

/-- A connection that has been opened `n` times is disconnected. -/
def Past.cut (past : Past) (c n : ℕ) : Past :=
  { past with shut := Function.update past.shut c (some n) }

/-- **The invariant.** -/
structure Inv (past : Past) (g : Pending) (h : Heap) : Prop where
  born : ∀ s x, h.cells s = some x → s ∈ h.born
  slot : ∀ s, h.slot s = true → g.released ≠ some s → s ∉ g.dying → ∃ x, h.cells s = some x
  parent : ∀ s x q, h.cells s = some x → s ∉ g.dying → x.parent = some q → ∃ y, h.cells q = some y
  kind : ∀ s x q, h.cells s = some x → x.parent = some q → q.RetainedBy s
  counted : ∀ q x, h.cells q = some x → q.counted = true → q ∉ g.dying →
    x.references = h.slotRef g.released q + h.tally g.dying q + g.owes q ∧ 0 < x.references
  uncounted : ∀ s x, h.cells s = some x → s.counted = false → s ∉ g.dying →
    h.slot s = true ∧ g.released ≠ some s
  owed : ∀ q, g.owed = some q → q.counted = true ∧ q ∉ g.dying ∧ ∃ x, h.cells q = some x
  dying : ∀ s ∈ g.dying, (∃ x, h.cells s = some x) ∧ (h.slot s = true → g.released = some s) ∧
    ∀ t y, h.cells t = some y → t ∉ g.dying → y.parent ≠ some s
  active : ∀ c y r, h.cells c = some y → y.active = some r →
    r ∉ g.dying ∧ ∃ x, h.cells r = some x ∧ x.state = .installed ∧ x.parent = some c
  request : ∀ s x, h.cells s = some x → (∃ r, s = .request r) → s ∉ g.dying →
    (x.state = .installed ↔ x.parent.isSome = true)
  installed : ∀ s x, h.cells s = some x → x.state = .installed → (∃ r, s = .request r) ∧
    ∃ c y, x.parent = some c ∧ h.cells c = some y ∧ y.active = some s
  fields : ∀ s x, h.cells s = some x → x.held ⊆ s.fields
  capacity : ∀ s x, h.cells s = some x → x.capacity ≠ 0 → ∃ a, s = .appender a
  bare : ∀ s ∈ g.bare, s ∈ g.dying ∧ ∀ x, h.cells s = some x → weight (some x) ≤ 1
  live : h.live = past.live + h.total
  freed : ∀ s, h.seen (.freed s) + (if (h.cells s).isSome then 1 else 0) =
    if s ∈ h.born then 1 else 0
  unborn : ∀ s, s ∉ h.born → h.seen (.opened s) = 0
  cleared : ∀ s f, s.handle = some f → h.seen (.opened s) ≤ 1 ∧
    h.seen (.cleared s) + (if ∃ x, h.cells s = some x ∧ f ∈ x.held then 1 else 0) =
      h.seen (.opened s)
  kept : ∀ s f x, s.handle = some f → h.cells s = some x → s ∉ g.dying → x.closing = false →
    h.seen (.opened s) = 1 → f ∈ x.held
  closed : ∀ s x, h.cells s = some x → s ∉ g.dying → x.closing = true → s ∈ past.closed
  cut : ∀ c x, h.cells (.connection c) = some x → .connection c ∉ g.dying → x.closing = true →
    c ∉ past.parting → .connection ∉ x.held
  shut : ∀ c n, past.shut c = some n → .connection c ∈ h.born ∧
    h.seen (.opened (.connection c)) = n ∧
      ∀ x, h.cells (.connection c) = some x → c ∉ past.parting → x.closing = true

variable {past : Past} {g : Pending} {h : Heap} {s : Shell} {x x' : Cell}

/-! ### Sums and one cell -/

section Sums

variable {cells : Shell → Option Cell} {o : Option Cell}

theorem total_update (hs : s ∈ h.born) (hc : cells = Function.update h.cells s o) :
    (∑ t ∈ h.born, weight (cells t)) + weight (h.cells s) = h.total + weight o := by
  have h' := sum_add_eq_sum_add (f := fun t => weight (h.cells t)) (g := fun t => weight (cells t))
    hs fun t _ ht => by rw [hc, Function.update_of_ne ht]
  rw [hc, Function.update_self] at h'
  rw [hc]
  exact h'

/-- A cell that keeps its parent retains whom it retained. -/
theorem tally_of_parent_eq {h' : Heap} (hborn : h'.born = h.born)
    (hparent : ∀ t, (h'.cells t).bind Cell.parent = (h.cells t).bind Cell.parent)
    (dying : Finset Shell) (q : Shell) : h'.tally dying q = h.tally dying q := by
  rw [Heap.tally, Heap.tally, hborn]
  exact Finset.sum_congr rfl fun t _ => by rw [Heap.retains, Heap.retains, hparent]

end Sums

/-! ### A change within a cell -/

/-- The engine handle of `s` is accounted for by these counts. -/
structure HandleOk (past : Past) (g : Pending) (s : Shell) (x : Cell) (seen : Event → ℕ) :
    Prop where
  once : ∀ f, s.handle = some f → seen (.opened s) ≤ 1 ∧
    seen (.cleared s) + (if f ∈ x.held then 1 else 0) = seen (.opened s)
  kept : ∀ f, s.handle = some f → s ∉ g.dying → x.closing = false → seen (.opened s) = 1 →
    f ∈ x.held
  cut : ∀ c, s = .connection c → s ∉ g.dying → x.closing = true → c ∉ past.parting →
    .connection ∉ x.held
  shut : ∀ c n, s = .connection c → past.shut c = some n →
    seen (.opened s) = n ∧ (c ∉ past.parting → x.closing = true)

theorem Inv.handleOk (hi : Inv past g h) (hx : h.cells s = some x) :
    HandleOk past g s x h.seen := by
  refine ⟨fun f hf => ?_, fun f hf => hi.kept s f x hf hx, fun c hc => ?_, fun c n hc hn => ?_⟩
  · obtain ⟨hle, heq⟩ := hi.cleared s f hf
    refine ⟨hle, ?_⟩
    rw [← heq]
    simp [hx]
  · subst hc
    exact hi.cut c x hx
  · subst hc
    exact ⟨(hi.shut c n hn).2.1, (hi.shut c n hn).2.2 x hx⟩

/-- The state after a change of one cell, with its counters. -/
structure Changed (h h' : Heap) (s : Shell) (x' : Cell) : Prop where
  cells : h'.cells = Function.update h.cells s (some x')
  slot : h'.slot = h.slot
  born : h'.born = h.born
  freed : ∀ t, h'.seen (.freed t) = h.seen (.freed t)
  other : ∀ t, t ≠ s → h'.seen (.opened t) = h.seen (.opened t) ∧
    h'.seen (.cleared t) = h.seen (.cleared t)

namespace Changed

variable {h' : Heap}

theorem put : Changed h (h.put s x') s x' :=
  ⟨rfl, rfl, rfl, fun _ => rfl, fun _ _ => ⟨rfl, rfl⟩⟩

theorem self (hc : Changed h h' s x') : h'.cells s = some x' := by
  rw [hc.cells, Function.update_self]

theorem of_ne (hc : Changed h h' s x') {t : Shell} (ht : t ≠ s) : h'.cells t = h.cells t := by
  rw [hc.cells, Function.update_of_ne ht]

theorem cases (hc : Changed h h' s x') {t : Shell} {y : Cell} (ht : h'.cells t = some y) :
    t = s ∧ y = x' ∨ t ≠ s ∧ h.cells t = some y := by
  by_cases hts : t = s
  · subst hts
    exact .inl ⟨rfl, Option.some.inj (ht.symm.trans hc.self)⟩
  · exact .inr ⟨hts, (hc.of_ne hts).symm.trans ht⟩

theorem exists_cell (hc : Changed h h' s x') {t : Shell} (ht : ∃ y, h.cells t = some y) :
    ∃ y, h'.cells t = some y := by
  obtain ⟨y, hy⟩ := ht
  by_cases hts : t = s
  · exact ⟨x', hts ▸ hc.self⟩
  · exact ⟨y, (hc.of_ne hts).trans hy⟩

theorem total (hc : Changed h h' s x') (hx : h.cells s = some x) (hs : s ∈ h.born) :
    h'.total + weight (some x) = h.total + weight (some x') := by
  have := total_update (o := some x') hs hc.cells
  rw [hx] at this
  rw [Heap.total, hc.born]
  exact this

theorem tally (hc : Changed h h' s x') (hx : h.cells s = some x) (hp : x'.parent = x.parent)
    (dying : Finset Shell) (q : Shell) : h'.tally dying q = h.tally dying q := by
  refine tally_of_parent_eq hc.born (fun t => ?_) dying q
  by_cases hts : t = s
  · subst hts
    rw [hc.self, hx]
    exact hp
  · rw [hc.of_ne hts]

theorem slotRef (hc : Changed h h' s x') (released : Option Shell) (q : Shell) :
    h'.slotRef released q = h.slotRef released q := by
  rw [Heap.slotRef, Heap.slotRef, hc.slot]

theorem freed_isSome (hc : Changed h h' s x') (hx : h.cells s = some x) (t : Shell) :
    (h'.cells t).isSome = (h.cells t).isSome := by
  by_cases hts : t = s
  · subst hts
    rw [hc.self, hx]
    rfl
  · rw [hc.of_ne hts]

end Changed

/-- What a cell may hold. -/
structure CellOk (past : Past) (g : Pending) (s : Shell) (x x' : Cell) : Prop where
  fields : x'.held ⊆ s.fields
  capacity : x'.capacity ≠ 0 → ∃ a, s = .appender a
  bare : s ∈ g.bare → weight (some x') ≤ weight (some x)
  closed : s ∉ g.dying → x'.closing = true → s ∈ past.closed

/-- **A change within a cell** keeps the invariant when the counters follow. A reference may be
taken on or given up with it. -/
theorem Inv.change {h' : Heap} (hi : Inv past g h) (owed : Option Shell)
    (hc : Changed h h' s x') (hx : h.cells s = some x) (hparent : x'.parent = x.parent)
    (hactive : x'.active = x.active) (hstate : x'.state = x.state) (hcell : CellOk past g s x x')
    (hrefs : s.counted = true → s ∉ g.dying → x'.references = h.slotRef g.released s +
      h.tally g.dying s + Pending.owes { g with owed := owed } s ∧ 0 < x'.references)
    (howes : ∀ q, q ≠ s → Pending.owes { g with owed := owed } q = g.owes q)
    (howed : ∀ q, owed = some q → q.counted = true ∧ q ∉ g.dying ∧ ∃ y, h.cells q = some y)
    (hlive : h'.live + weight (some x) = h.live + weight (some x'))
    (hhandle : HandleOk past g s x' h'.seen) : Inv past { g with owed := owed } h' := by
  have hs : s ∈ h.born := hi.born s x hx
  refine
    { born := fun t y ht => ?_, slot := fun t ht hr hd => ?_, parent := fun t y q ht hd hp => ?_,
      kind := fun t y q ht hp => ?_, counted := fun q y hq hk hd => ?_,
      uncounted := fun t y ht hk hd => ?_, owed := fun q hq => ?_, dying := fun t ht => ?_,
      active := fun c y r hcc hr => ?_, request := fun t y ht hr hd => ?_,
      installed := fun t y ht hst => ?_, fields := fun t y ht => ?_,
      capacity := fun t y ht hcap => ?_, bare := fun t ht => ?_, live := ?_, freed := fun t => ?_,
      unborn := fun t ht => ?_, cleared := fun t f hf => ?_,
      kept := fun t f y hf ht hd hcl ho => ?_, closed := fun t y ht hd hcl => ?_,
      cut := fun b y hb hd hcl hp => ?_, shut := fun b n hn => ?_ }
  · rw [hc.born]
    rcases hc.cases ht with ⟨rfl, -⟩ | ⟨-, ht⟩
    · exact hs
    · exact hi.born t y ht
  · rw [hc.slot] at ht
    exact hc.exists_cell (hi.slot t ht hr hd)
  · rcases hc.cases ht with ⟨rfl, rfl⟩ | ⟨-, ht⟩
    · exact hc.exists_cell (hi.parent t x q hx hd (hparent ▸ hp))
    · exact hc.exists_cell (hi.parent t y q ht hd hp)
  · rcases hc.cases ht with ⟨rfl, rfl⟩ | ⟨-, ht⟩
    · exact hi.kind t x q hx (hparent ▸ hp)
    · exact hi.kind t y q ht hp
  -- the counter of `s` by hypothesis; those of the others count the same references
  · rw [hc.slotRef, hc.tally hx hparent]
    rcases hc.cases hq with ⟨rfl, rfl⟩ | ⟨hqs, hq⟩
    · exact hrefs hk hd
    · rw [howes q hqs]
      exact hi.counted q y hq hk hd
  · rw [hc.slot]
    rcases hc.cases ht with ⟨rfl, rfl⟩ | ⟨-, ht⟩
    · exact hi.uncounted t x hx hk hd
    · exact hi.uncounted t y ht hk hd
  · exact ⟨(howed q hq).1, (howed q hq).2.1, hc.exists_cell (howed q hq).2.2⟩
  · obtain ⟨hex, hslot, horphan⟩ := hi.dying t ht
    refine ⟨hc.exists_cell hex, by rw [hc.slot]; exact hslot, fun u y hu hud => ?_⟩
    rcases hc.cases hu with ⟨rfl, rfl⟩ | ⟨-, hu⟩
    · rw [hparent]
      exact horphan u x hx hud
    · exact horphan u y hu hud
  -- the request of a connection and the connection of a request: either may be the cell that
  -- changes, which keeps both links
  · have hr' : ∃ z, h.cells c = some z ∧ z.active = some r := by
      rcases hc.cases hcc with ⟨rfl, rfl⟩ | ⟨-, hcc⟩
      · exact ⟨x, hx, hactive ▸ hr⟩
      · exact ⟨y, hcc, hr⟩
    obtain ⟨z, hz, hzr⟩ := hr'
    obtain ⟨hd, w, hw, hst, hp⟩ := hi.active c z r hz hzr
    refine ⟨hd, ?_⟩
    by_cases hrs : r = s
    · subst hrs
      obtain rfl : w = x := Option.some.inj (hw.symm.trans hx)
      exact ⟨x', hc.self, hstate.trans hst, hparent.trans hp⟩
    · exact ⟨w, (hc.of_ne hrs).trans hw, hst, hp⟩
  · rcases hc.cases ht with ⟨rfl, rfl⟩ | ⟨-, ht⟩
    · rw [hstate, hparent]
      exact hi.request t x hx hr hd
    · exact hi.request t y ht hr hd
  · have hst' : ∃ z, h.cells t = some z ∧ z.state = .installed ∧ z.parent = y.parent := by
      rcases hc.cases ht with ⟨rfl, rfl⟩ | ⟨-, ht⟩
      · exact ⟨x, hx, hstate ▸ hst, hparent.symm⟩
      · exact ⟨y, ht, hst, rfl⟩
    obtain ⟨z, hz, hzst, hzp⟩ := hst'
    obtain ⟨hreq, c, w, hp, hw, hwr⟩ := hi.installed t z hz hzst
    refine ⟨hreq, c, ?_⟩
    by_cases hcs : c = s
    · subst hcs
      obtain rfl : w = x := Option.some.inj (hw.symm.trans hx)
      exact ⟨x', hzp ▸ hp, hc.self, hactive.trans hwr⟩
    · exact ⟨w, hzp ▸ hp, (hc.of_ne hcs).trans hw, hwr⟩
  · rcases hc.cases ht with ⟨rfl, rfl⟩ | ⟨-, ht⟩
    · exact hcell.fields
    · exact hi.fields t y ht
  · rcases hc.cases ht with ⟨rfl, rfl⟩ | ⟨-, ht⟩
    · exact hcell.capacity hcap
    · exact hi.capacity t y ht hcap
  · obtain ⟨hd, hw⟩ := hi.bare t ht
    refine ⟨hd, fun y hy => ?_⟩
    rcases hc.cases hy with ⟨rfl, rfl⟩ | ⟨-, hy⟩
    · exact le_trans (hcell.bare ht) (hw x hx)
    · exact hw y hy
  -- the counter of live resources moves by the weight of the cell
  · have htotal := hc.total hx hs
    have := hi.live
    omega
  · rw [hc.freed, hc.born, hc.freed_isSome hx]
    exact hi.freed t
  · rw [hc.born] at ht
    rw [(hc.other t fun h => ht (h ▸ hs)).1]
    exact hi.unborn t ht
  -- handles: what was opened, cleared and is still held
  · by_cases hts : t = s
    · subst hts
      obtain ⟨hle, heq⟩ := hhandle.once f hf
      refine ⟨hle, ?_⟩
      rw [← heq, hc.self]
      simp
    · rw [(hc.other t hts).1, (hc.other t hts).2, hc.of_ne hts]
      exact hi.cleared t f hf
  · rcases hc.cases ht with ⟨rfl, rfl⟩ | ⟨hts, ht⟩
    · exact hhandle.kept f hf hd hcl ho
    · rw [(hc.other t hts).1] at ho
      exact hi.kept t f y hf ht hd hcl ho
  · rcases hc.cases ht with ⟨rfl, rfl⟩ | ⟨-, ht⟩
    · exact hcell.closed hd hcl
    · exact hi.closed t y ht hd hcl
  · rcases hc.cases hb with ⟨rfl, rfl⟩ | ⟨-, hb⟩
    · exact hhandle.cut b rfl hd hcl hp
    · exact hi.cut b y hb hd hcl hp
  -- connections that are closing open no more handles
  · obtain ⟨hborn, hopened, hclosing⟩ := hi.shut b n hn
    refine ⟨hc.born ▸ hborn, ?_, fun y hb hp => ?_⟩
    · by_cases hbs : .connection b = s
      · exact hbs ▸ (hhandle.shut b n hbs.symm hn).1
      · rw [(hc.other _ hbs).1]
        exact hopened
    · rcases hc.cases hb with ⟨hbs, rfl⟩ | ⟨-, hb⟩
      · exact (hhandle.shut b n hbs.symm hn).2 hp
      · exact hclosing y hb hp

/-- A change that leaves the references. -/
theorem Inv.update {h' : Heap} (hi : Inv past g h) (hc : Changed h h' s x')
    (hx : h.cells s = some x) (hparent : x'.parent = x.parent)
    (hactive : x'.active = x.active) (hstate : x'.state = x.state) (hcell : CellOk past g s x x')
    (hrefs : s.counted = true → s ∉ g.dying → x'.references = x.references)
    (hlive : h'.live + weight (some x) = h.live + weight (some x'))
    (hhandle : HandleOk past g s x' h'.seen) : Inv past g h' := by
  show Inv past { g with owed := g.owed } h'
  refine hi.change g.owed hc hx hparent hactive hstate hcell (fun hk hd => ?_) (fun _ _ => rfl)
    hi.owed hlive hhandle
  rw [hrefs hk hd]
  exact hi.counted s x hx hk hd

/-! ### Shells about to be freed -/

theorem Shell.RetainedBy.ne {q t : Shell} (hk : q.RetainedBy t) : t ≠ q := by
  rintro rfl
  cases t <;> exact hk

theorem Shell.RetainedBy.counted {q t : Shell} (hk : q.RetainedBy t) : q.counted = true := by
  cases q <;> cases t <;> first | rfl | exact hk.elim

end DuckdbMl.Native
