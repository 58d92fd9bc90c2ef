import DuckdbMl.Transition.System
import Mathlib.Algebra.BigOperators.Group.Finset.Basic
import Mathlib.Algebra.Order.BigOperators.Group.Finset

/-!
# Rankings

A ranking bounds the number of some of the steps of a run: each of them uses up a part of the rank,
and no step adds more to it than it adds to an allowance.

## Main results

* `System.Run.rank_le`: the steps that use up the rank are bounded by it, and by the allowance
* `sum_update`: the rank of many parts after one of them has changed
-/

namespace Transition

universe u v

/-- One part of a sum changes. -/
theorem sum_update {β : Type u} (g : β → ℕ) (f : ℕ → β) {n i : ℕ} (hi : i < n) (b : β) :
    (∑ j ∈ Finset.range n, g (Function.update f i b j)) + g (f i) =
      (∑ j ∈ Finset.range n, g (f j)) + g b := by
  have hmem := Finset.mem_range.mpr hi
  rw [← Finset.add_sum_erase _ _ hmem, ← Finset.add_sum_erase (Finset.range n) (g <| f ·) hmem,
    Function.update_self]
  have hrest : ∑ j ∈ (Finset.range n).erase i, g (Function.update f i b j) =
      ∑ j ∈ (Finset.range n).erase i, g (f j) :=
    Finset.sum_congr rfl fun j hj => by rw [Function.update_of_ne (Finset.ne_of_mem_erase hj)]
  rw [hrest]
  omega

namespace System

variable {σ : Type u} {α : Type v} {S : System σ α} {G : Guard σ α}

/-- **The ranking rule**: each step that is counted uses up a part of the rank, and a step that adds
to the rank adds as much to the allowance. -/
theorem Run.rank_le (I : σ → Prop) (rank allowance : σ → ℕ) (counted : α → Bool)
    (hinv : ∀ s a t, I s → G s a → S.step s a = some t → I t)
    (hstep : ∀ s a t, I s → G s a → S.step s a = some t →
      rank t + allowance s + (counted a).toNat ≤ rank s + allowance t)
    {s t : σ} {as : List α} (hr : S.Run G s as t) (hs : I s) :
    rank t + allowance s + as.countP counted ≤ rank s + allowance t := by
  induction as generalizing s with
  | nil =>
    cases hr
    exact le_rfl
  | cons a as ih =>
    obtain ⟨hg, u, hu, hr⟩ := hr
    have hfirst := hstep s a u hs hg hu
    have hrest := ih hr (hinv s a u hs hg hu)
    have hcount : (a :: as).countP counted = as.countP counted + (counted a).toNat := by
      rw [List.countP_cons]
      cases counted a <;> rfl
    rw [hcount]
    omega

end System

end Transition
