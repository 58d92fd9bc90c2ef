import Mathlib.Data.Nat.Notation
import Mathlib.Tactic.Common

/-!
# Memory in bytes

Values of a whole number of bytes are stored in a memory of bytes, the least significant byte first.

## Main definitions

* `load`, `store`: a value at an address
* `copy`, `fill`: many bytes at once

## Main results

* `load_store`, `load_store_of_disjoint`: what is read after a store
* `load_copy`, `load_fill_of_disjoint`: after many bytes
-/

namespace Bytes

abbrev Memory := ℕ → BitVec 8

/-- The value of `n / 8` bytes at `a`. -/
def load (n : ℕ) (m : Memory) (a : ℕ) : BitVec n :=
  (BitVec.ofBoolListLE ((List.range n).map fun j => (m (a + j / 8)).getLsbD (j % 8))).setWidth n

def store {n : ℕ} (m : Memory) (a : ℕ) (x : BitVec n) : Memory := fun p =>
  if a ≤ p ∧ p < a + n / 8 then x.extractLsb' (8 * (p - a)) 8 else m p

/-- `length` bytes of `source` from `s` on, to `d`. -/
def copy (m source : Memory) (d s length : ℕ) : Memory := fun p =>
  if d ≤ p ∧ p < d + length then source (s + (p - d)) else m p

/-- `length` bytes from `a` on become `b`. -/
def fill (m : Memory) (a length : ℕ) (b : BitVec 8) : Memory := fun p =>
  if a ≤ p ∧ p < a + length then b else m p

variable {n w : ℕ} {m m' : Memory} {a b : ℕ}

theorem getLsbD_load (j : ℕ) :
    (load n m a).getLsbD j = (decide (j < n) && (m (a + j / 8)).getLsbD (j % 8)) := by
  rw [load, BitVec.getLsbD_setWidth, BitVec.getLsbD_ofBoolListLE]
  by_cases hj : j < n
  · simp [hj, List.getD]
  · simp [hj]

/-- A value depends on its own bytes. -/
theorem load_congr (h : ∀ k < n / 8, m (a + k) = m' (b + k)) (hn : 8 ∣ n) :
    load n m a = load n m' b := by
  refine BitVec.eq_of_getLsbD_eq fun j hj => ?_
  rw [getLsbD_load, getLsbD_load, h (j / 8) (by omega)]

@[simp] theorem load_store (hn : 8 ∣ n) (x : BitVec n) : load n (store m a x) a = x := by
  refine BitVec.eq_of_getLsbD_eq fun j hj => ?_
  have hbyte : a ≤ a + j / 8 ∧ a + j / 8 < a + n / 8 := by omega
  have hindex : 8 * (a + j / 8 - a) + j % 8 = j := by omega
  rw [getLsbD_load, store, if_pos hbyte, BitVec.getLsbD_extractLsb', hindex]
  simp [hj, Nat.mod_lt]

theorem load_store_of_disjoint (hn : 8 ∣ n) (x : BitVec w) (h : b + n / 8 ≤ a ∨ a + w / 8 ≤ b) :
    load n (store m a x) b = load n m b :=
  load_congr (fun k hk => if_neg (by omega)) hn

theorem load_copy {source : Memory} {d s length k : ℕ} (hn : 8 ∣ n) (h : k + n / 8 ≤ length) :
    load n (copy m source d s length) (d + k) = load n source (s + k) := by
  refine load_congr (fun i hi => ?_) hn
  rw [copy, if_pos (by omega)]
  congr 1
  omega

theorem load_fill_of_disjoint {length : ℕ} {x : BitVec 8} (hn : 8 ∣ n)
    (h : b + n / 8 ≤ a ∨ a + length ≤ b) : load n (fill m a length x) b = load n m b :=
  load_congr (fun k hk => if_neg (by omega)) hn

end Bytes
