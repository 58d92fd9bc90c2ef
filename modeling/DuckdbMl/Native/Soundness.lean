import DuckdbMl.Native.Release
import Mathlib.Algebra.BigOperators.Group.Finset.Piecewise

/-!
# The native calls keep the invariant

Every call keeps the invariant, whatever slot it is made on and whatever the engine answers, unless
it aborts.

## Main definitions

* `Under`: the cell of a shell is known, and its parent has not been closed

## Main results

* `safe_call`: every call that does not abort touches no freed shell and keeps the invariant
-/

namespace DuckdbMl.Native

open Effects Transition

variable {past : Past} {g : Pending} {h : Heap} {s : Shell} {x : Cell} {f : Field}
  {absent : List Field}

/-- Between calls, a call touches no freed shell and keeps the invariant. -/
def Keeps (c : Call Unit) : Prop :=
  ∀ past, Safe (Inv past .none) c fun _ => Inv past .none

/-! ### Slots -/

theorem Inv.exists_cell (hi : Inv past .none h) (hs : h.slot s = true) :
    ∃ x, h.cells s = some x :=
  hi.slot s hs nofun (Finset.notMem_empty s)

theorem keeps_onSlot {work : Call Unit}
    (hw : ∀ past, Safe (fun h => Inv past .none h ∧ h.slot s = true) work
      fun _ => Inv past .none) : Keeps (onSlot s work) := fun past =>
  Safe.choose (hw past) (Safe.pure fun _ hi => hi)

/-- Work on a full slot starts on its cell. -/
theorem Safe.onCell {work : Call Unit} {P : Heap → Prop} {Q : Unit → Heap → Prop}
    (hp : ∀ h, P h → Inv past .none h ∧ h.slot s = true)
    (hw : ∀ x, Safe (fun h => P h ∧ h.cells s = some x) work Q) : Safe P work Q := by
  intro h hh
  obtain ⟨hi, hs⟩ := hp h hh
  obtain ⟨x, hx⟩ := hi.exists_cell hs
  exact hw x h ⟨hh, hx⟩

/-- A live shell's parent is allocated. -/
theorem Own.exists_parent {c : Shell} (ho : Own past g s x absent h) (hd : s ∉ g.dying)
    (hc : x.parent = some c) : ∃ y, h.cells c = some y := by
  obtain ⟨held, hx, -⟩ := ho.cell
  exact ho.inv.parent s _ c hx hd hc

theorem Own.closing (ho : Own past g s x absent h) : h.closing s = x.closing := by
  obtain ⟨held, hx, -⟩ := ho.cell
  simp [Heap.closing, hx]

theorem safe_touchParent (hd : s ∉ g.dying) {y : Cell} (hy : y.parent = x.parent) :
    Safe (Own past g s x absent) (touchParent y) fun _ => Own past g s x absent := by
  unfold touchParent
  split
  case h_1 c hc =>
    refine Safe.bind (safe_deref fun h ho => ho.exists_parent hd (hy ▸ hc)) fun _ => ?_
    exact Safe.pure fun h hh => hh.1
  case h_2 => exact Safe.pure fun h hh => hh

/-- A call on the cell of a full slot. -/
theorem keeps_onCell {work : Call Unit}
    (hw : ∀ past x, Safe (Own past .none s x []) work fun _ => Inv past .none) :
    Keeps (onSlot s work) := by
  refine keeps_onSlot fun past => Safe.onCell (fun h hh => hh) fun x => ?_
  exact (hw past x).pre fun h hh => Own.start hh.1.1 hh.2

/-- The cell of a shell with a full slot, about to be released. -/
structure Full (past : Past) (s : Shell) (x : Cell) (h : Heap) : Prop where
  inv : Inv past .none h
  slot : h.slot s = true
  cell : h.cells s = some x

theorem Full.own (hf : Full past s x h) : Own past .none s x [] h :=
  Own.start hf.inv hf.cell

theorem Full.capacity (hf : Full past s x h) (hs : ∀ a, s ≠ .appender a) : x.capacity = 0 := by
  by_contra hcap
  obtain ⟨a, ha⟩ := hf.inv.capacity s x hf.cell hcap
  exact hs a ha

theorem Full.state (hf : Full past s x h) (hs : ∀ r, s ≠ .request r) :
    x.state ≠ .installed := by
  intro hst
  obtain ⟨⟨r, hr⟩, -⟩ := hf.inv.installed s x hf.cell hst
  exact hs r hr

theorem safe_clearResult (p : ℕ) : Safe (Own past .none (.prepared p) x absent)
    (clearResult (.prepared p)) fun _ =>
      Own past .none (.prepared p) x ([.chunk, .vectors, .result] ++ absent) := by
  refine Safe.bind (safe_deref fun _ ho => ho.exists_cell) fun y => ?_
  refine Safe.of_fact (p := y.parent = x.parent) (fun h hh => ?_) fun hy => ?_
  · obtain ⟨held, hx, -⟩ := hh.1.cell
    rw [← Option.some.inj (hx.symm.trans hh.2)]
  refine Safe.bind ((safe_touchParent (Finset.notMem_empty _) hy).pre fun _ hh => hh.1) fun _ => ?_
  exact safe_drops fun _ _ => closable_of_ne (by simp [Shell.handle])

theorem Leaves.take {t : Shell} (hs : s ≠ t) : Leaves s (take t f) :=
  Leaves.bind .deref fun _ => Leaves.bind (.put hs) fun _ _ => ⟨rfl, rfl⟩

theorem keeps_closeResult (p : ℕ) : Keeps (closeResult p) :=
  keeps_onCell fun _ _ => (safe_clearResult p).post fun _ _ ho => ho.inv

/-- The counter moves, and what it started from with it. -/
theorem Own.count (k : ℤ) (ho : Own past g s x absent h) :
    Own (past.plus k) g s x absent { h with live := h.live + k } where
  inv :=
    { ho.inv with
      live := by
        have := ho.inv.live
        simp only [Heap.total, Past.plus] at this ⊢
        omega }
  cell := ho.cell

theorem Leaves.releaseStaging {a : Shell} (hs : s ≠ a) : Leaves s (releaseStaging a) :=
  Leaves.bind (Leaves.bind .deref fun _ => Leaves.bind (.put hs) fun _ _ => ⟨rfl, rfl⟩) fun _ =>
    .drops hs _

/-- A shell that has no parent takes one, whose reference is owed. -/
theorem Inv.adopt {c : Shell} {y : Cell} {h' : Heap} (hi : Inv past ⟨some c, none, ∅, ∅⟩ h)
    (hx : h.cells s = some x) (hy : h.cells c = some y) (hparent : x.parent = none)
    (hkind : c.RetainedBy s) (hrequest : ∀ r, s ≠ .request r)
    (hcells : h'.cells = Function.update h.cells s (some { x with parent := some c }))
    (hslot : h'.slot = h.slot) (hborn : h'.born = h.born) (hlive : h'.live = h.live)
    (hseen : h'.seen = h.seen) : Inv past .none h' := by
  have hb : Rebound h h' s c x (some c) x.state y y.active :=
    ⟨by rw [hcells, show { y with active := y.active } = y from rfl, ← hy,
      Function.update_eq_self], hslot, hborn, hlive, hseen⟩
  have hnot : x.state ≠ .installed := fun hst => by
    obtain ⟨⟨r, hr⟩, -⟩ := hi.installed s x hx hst
    exact hrequest r hr
  refine hi.rebind hb hx hy (Finset.notMem_empty _) (Finset.notMem_empty _) hkind
    (.inl hparent) (.inr rfl) (.inr rfl) (.inl rfl) (by simp [hparent]) (fun r hr => .inr ⟨?_, hr⟩)
    (fun _ _ ht => ht) (fun hst => absurd hst hnot) (fun ⟨r, hr⟩ => absurd hr (hrequest r))
  rintro rfl
  obtain ⟨-, z, hz, hst, -⟩ := hi.active c y _ hy hr
  obtain rfl := Option.some.inj (hx.symm.trans hz)
  exact hnot hst

/-- **A request is installed** on a connection without one. -/
theorem Inv.install {r c : ℕ} {y : Cell} {h' : Heap} (hi : Inv past .none h)
    (hx : h.cells (.request r) = some x) (hfresh : x.state = .fresh)
    (hy : h.cells (.connection c) = some y) (hidle : y.active = none)
    (hcells : h'.cells = Function.update (Function.update h.cells (.connection c)
      (some { y with references := y.references + 1, active := some (.request r) })) (.request r)
      (some { x with parent := some (.connection c), state := .installed }))
    (hslot : h'.slot = h.slot) (hborn : h'.born = h.born) (hlive : h'.live = h.live)
    (hseen : h'.seen = h.seen) : Inv past .none h' := by
  have hparent : x.parent = none := by
    have := hi.request _ x hx ⟨r, rfl⟩ (Finset.notMem_empty _)
    simpa [hfresh] using this
  -- the connection is counted once more, for the request, which then refers to it
  have howed := hi.addRef hy rfl Changed.put rfl rfl
  have hb : Rebound (h.put (.connection c) { y with references := y.references + 1 }) h'
      (.request r) (.connection c) x
      (some (.connection c)) .installed { y with references := y.references + 1 }
      (some (.request r)) :=
    ⟨by rw [hcells, Heap.put, Function.update_idem], hslot, hborn, hlive, hseen⟩
  have hx' : (h.put (.connection c) { y with references := y.references + 1 }).cells (.request r) =
      some x := by rw [Heap.put_of_ne (by simp), hx]
  refine howed.rebind hb hx' (Heap.put_self ..)
    (Finset.notMem_empty _) (Finset.notMem_empty _) trivial (.inl hparent) (.inr rfl) (.inr rfl)
    (.inl rfl) (by simp [hparent]) (fun p hp => .inl ⟨?_, rfl, rfl⟩) (fun _ _ ht => ?_)
    (fun _ => ⟨⟨r, rfl⟩, rfl, rfl⟩) (fun _ => by simp)
  · exact (Option.some.inj hp).symm
  · rw [hidle] at ht
    cases ht

/-- **A request is uninstalled**: its reference to the connection is owed. -/
theorem Inv.uninstall {r : ℕ} {c : Shell} {y : Cell} {h' : Heap} (hi : Inv past .none h)
    (hx : h.cells (.request r) = some x) (hparent : x.parent = some c)
    (hy : h.cells c = some y) (hactive : y.active = some (.request r))
    (hcells : h'.cells = Function.update (Function.update h.cells c
      (some { y with active := none })) (.request r)
      (some { x with parent := none, state := .detached }))
    (hslot : h'.slot = h.slot) (hborn : h'.born = h.born) (hlive : h'.live = h.live)
    (hseen : h'.seen = h.seen) : Inv past ⟨some c, none, ∅, ∅⟩ h' := by
  have hb : Rebound h h' (.request r) c x none .detached y none :=
    ⟨hcells, hslot, hborn, hlive, hseen⟩
  refine hi.rebind hb hx hy (Finset.notMem_empty _) (Finset.notMem_empty _)
    (hi.kind _ x c hx hparent) (.inr hparent) (.inl rfl) (.inl rfl) (.inr rfl)
    (by simp [hparent, Pending.none]) nofun (fun t ht htr => ?_) nofun (fun _ => by simp)
  rw [hactive] at htr
  exact absurd (Option.some.inj htr).symm ht

/-- What is known of a request after an attempt to uninstall it. -/
def Uninstalled (past : Past) (s : Shell) (x : Cell) (result : UninstallResult) (h : Heap) :
    Prop :=
  match result with
  | .uninstalled => Full past s { x with parent := none, state := .detached } h
  | .deliveryPending => Inv past .none h ∧ x.reserved = true
  | .notInstalled => Inv past .none h ∧ x.state ≠ .installed

theorem Uninstalled.inv {result : UninstallResult} (hu : Uninstalled past s x result h) :
    Inv past .none h := by
  cases result with
  | uninstalled => exact Full.inv hu
  | deliveryPending => exact hu.1
  | notInstalled => exact hu.1

/-- Which owner a call closes explicitly. -/
def Act.closes : Act → Option Shell
  | .closeDatabase d => some (.database d)
  | .closeConnection c => some (.connection c)
  | _ => none

end DuckdbMl.Native
