import Mathlib.Data.Nat.Log
import Mathlib.Tactic.Linarith

/-!
# Binary floating point

The interchange formats of 32 and 64 bits, a value being its pattern of bits: a sign, and a
magnitude of exponent and mantissa. Widening is exact, narrowing rounds to the nearest value and
ties to the even one.

## Main definitions

* `widen`, `narrow`: the conversions

## Main results

* `narrow_widen`: a widened value narrows to itself
-/

namespace Ieee

/-- The magnitude of 63 bits with the value of one of 31 bits. A subnormal number is normalized:
its leading bit carries into the exponent. -/
def widenMagnitude (n : ℕ) : ℕ :=
  let exponent := n / 2 ^ 23
  let mantissa := n % 2 ^ 23
  if exponent = 255 then 2047 * 2 ^ 52 + mantissa * 2 ^ 29
  else if exponent ≠ 0 then (exponent + 896) * 2 ^ 52 + mantissa * 2 ^ 29
  else if mantissa = 0 then 0
  else (mantissa.log2 + 873) * 2 ^ 52 + mantissa * 2 ^ (52 - mantissa.log2)

/-- `n / 2 ^ k`, to the nearest number, ties to the even one. -/
def roundShift (n k : ℕ) : ℕ :=
  if 2 ^ k < 2 * (n % 2 ^ k) ∨ 2 * (n % 2 ^ k) = 2 ^ k ∧ n / 2 ^ k % 2 = 1 then n / 2 ^ k + 1
  else n / 2 ^ k

/-- The magnitude of 31 bits closest to one of 63 bits; a carry of the rounding goes into the
exponent. -/
def narrowMagnitude (n : ℕ) : ℕ :=
  let exponent := n / 2 ^ 52
  let mantissa := n % 2 ^ 52
  if exponent = 2047 then 255 * 2 ^ 23 + mantissa / 2 ^ 29
  else if 1150 < exponent then 255 * 2 ^ 23
  else if 897 ≤ exponent then (exponent - 897) * 2 ^ 23 + roundShift (2 ^ 52 + mantissa) 29
  else if 873 ≤ exponent then roundShift (2 ^ 52 + mantissa) (926 - exponent)
  else 0

def widen (x : BitVec 32) : BitVec 64 :=
  BitVec.ofNat 64 (x.toNat / 2 ^ 31 * 2 ^ 63 + widenMagnitude (x.toNat % 2 ^ 31))

def narrow (x : BitVec 64) : BitVec 32 :=
  BitVec.ofNat 32 (x.toNat / 2 ^ 63 * 2 ^ 31 + narrowMagnitude (x.toNat % 2 ^ 63))

/-- What is shifted out is zero. -/
theorem roundShift_mul (n k : ℕ) : roundShift (n * 2 ^ k) k = n := by
  have hpos : 0 < 2 ^ k := Nat.two_pow_pos k
  rw [roundShift, Nat.mul_mod_left, Nat.mul_div_cancel n hpos, if_neg]
  omega

section Fields

variable {n a b : ℕ}

/-- The fields of a magnitude. -/
theorem fields (hb : b < 2 ^ 52) : (a * 2 ^ 52 + b) / 2 ^ 52 = a ∧ (a * 2 ^ 52 + b) % 2 ^ 52 = b := by
  omega

theorem widenMagnitude_lt (hn : n < 2 ^ 31) : widenMagnitude n < 2 ^ 63 := by
  have hmantissa : n % 2 ^ 23 < 2 ^ 23 := Nat.mod_lt _ (by decide)
  unfold widenMagnitude
  dsimp only
  split
  · omega
  · split
    · omega
    · split
      · decide
      · have hlog : (n % 2 ^ 23).log2 < 23 := (Nat.log2_lt ‹_›).mpr hmantissa
        have hpow : n % 2 ^ 23 * 2 ^ (52 - (n % 2 ^ 23).log2) < 2 ^ 53 := by
          calc n % 2 ^ 23 * 2 ^ (52 - (n % 2 ^ 23).log2)
              < 2 ^ ((n % 2 ^ 23).log2 + 1) * 2 ^ (52 - (n % 2 ^ 23).log2) :=
                Nat.mul_lt_mul_of_pos_right Nat.lt_log2_self (Nat.two_pow_pos _)
            _ = 2 ^ 53 := by
                rw [← Nat.pow_add]
                congr 1
                omega
        omega

theorem narrowMagnitude_eq (hb : b < 2 ^ 52) : narrowMagnitude (a * 2 ^ 52 + b) =
    if a = 2047 then 255 * 2 ^ 23 + b / 2 ^ 29
    else if 1150 < a then 255 * 2 ^ 23
    else if 897 ≤ a then (a - 897) * 2 ^ 23 + roundShift (2 ^ 52 + b) 29
    else if 873 ≤ a then roundShift (2 ^ 52 + b) (926 - a)
    else 0 := by
  obtain ⟨hexponent, hmantissa⟩ := fields (a := a) hb
  simp only [narrowMagnitude, hexponent, hmantissa]

/-- The mantissa of a normal number is exact after widening. -/
theorem roundShift_normal (m : ℕ) : roundShift (2 ^ 52 + m * 2 ^ 29) 29 = 2 ^ 23 + m := by
  have h : 2 ^ 52 + m * 2 ^ 29 = (2 ^ 23 + m) * 2 ^ 29 := by
    rw [Nat.add_mul, ← Nat.pow_add]
  rw [h, roundShift_mul]

/-- A subnormal number is normal after widening; its leading bit is left out there. -/
theorem narrowMagnitude_subnormal {m : ℕ} (hm : m < 2 ^ 23) (h0 : m ≠ 0) :
    narrowMagnitude ((m.log2 + 873) * 2 ^ 52 + m * 2 ^ (52 - m.log2)) = m := by
  have hlog : m.log2 < 23 := (Nat.log2_lt h0).mpr hm
  have hpow : 2 ^ m.log2 * 2 ^ (52 - m.log2) = 2 ^ 52 := by
    rw [← Nat.pow_add]
    congr 1
    omega
  have hlow : 2 ^ 52 ≤ m * 2 ^ (52 - m.log2) := by
    rw [← hpow]
    exact Nat.mul_le_mul_right _ (Nat.log2_self_le h0)
  have hhigh : m * 2 ^ (52 - m.log2) < 2 * 2 ^ 52 := by
    rw [← hpow, ← Nat.mul_assoc, ← Nat.pow_succ']
    exact Nat.mul_lt_mul_of_pos_right Nat.lt_log2_self (Nat.two_pow_pos _)
  obtain ⟨r, hr⟩ := Nat.exists_eq_add_of_le hlow
  have hfields : (m.log2 + 873) * 2 ^ 52 + m * 2 ^ (52 - m.log2) =
      (m.log2 + 874) * 2 ^ 52 + r := by omega
  rw [hfields, narrowMagnitude_eq (by omega), if_neg (by omega), if_neg (by omega),
    if_neg (by omega), if_pos (by omega), ← hr]
  have hshift : 926 - (m.log2 + 874) = 52 - m.log2 := by omega
  rw [hshift, roundShift_mul]

/-- **Narrowing undoes widening.** -/
theorem narrowMagnitude_widenMagnitude (hn : n < 2 ^ 31) :
    narrowMagnitude (widenMagnitude n) = n := by
  have hmantissa : n % 2 ^ 23 < 2 ^ 23 := Nat.mod_lt _ (by decide)
  have hsplit : n / 2 ^ 23 * 2 ^ 23 + n % 2 ^ 23 = n := Nat.div_add_mod' n _
  have hexponent : n / 2 ^ 23 < 256 := by omega
  unfold widenMagnitude
  dsimp only
  generalize n % 2 ^ 23 = m at *
  generalize n / 2 ^ 23 = e at *
  subst hsplit
  have hshifted : m * 2 ^ 29 < 2 ^ 52 := by
    calc m * 2 ^ 29 < 2 ^ 23 * 2 ^ 29 := Nat.mul_lt_mul_of_pos_right hmantissa (Nat.two_pow_pos 29)
      _ = 2 ^ 52 := by rw [← Nat.pow_add]
  split
  case isTrue h =>
    rw [narrowMagnitude_eq hshifted, if_pos rfl, Nat.mul_div_cancel _ (Nat.two_pow_pos 29), h]
  case isFalse h =>
    split
    case isTrue h0 =>
      rw [narrowMagnitude_eq hshifted, if_neg (by omega), if_neg (by omega), if_pos (by omega),
        roundShift_normal]
      omega
    case isFalse h0 =>
      obtain rfl : e = 0 := not_not.mp h0
      split
      case isTrue hm =>
        rw [hm]
        rfl
      case isFalse hm =>
        rw [narrowMagnitude_subnormal hmantissa hm]
        omega

end Fields

/-- **A widened value narrows to itself.** -/
theorem narrow_widen (x : BitVec 32) : narrow (widen x) = x := by
  have hx : x.toNat < 2 ^ 32 := x.isLt
  have hlt : widenMagnitude (x.toNat % 2 ^ 31) < 2 ^ 63 :=
    widenMagnitude_lt (Nat.mod_lt _ (by decide))
  have hmag := narrowMagnitude_widenMagnitude (n := x.toNat % 2 ^ 31) (Nat.mod_lt _ (by decide))
  generalize hw : widenMagnitude (x.toNat % 2 ^ 31) = w at hlt hmag
  apply BitVec.eq_of_toNat_eq
  rw [narrow, widen, hw, BitVec.toNat_ofNat, BitVec.toNat_ofNat]
  have hmod : (x.toNat / 2 ^ 31 * 2 ^ 63 + w) % 2 ^ 64 = x.toNat / 2 ^ 31 * 2 ^ 63 + w := by omega
  have hdiv : (x.toNat / 2 ^ 31 * 2 ^ 63 + w) / 2 ^ 63 = x.toNat / 2 ^ 31 := by omega
  have hrest : (x.toNat / 2 ^ 31 * 2 ^ 63 + w) % 2 ^ 63 = w := by omega
  rw [hmod, hdiv, hrest, hmag, Nat.div_add_mod', Nat.mod_eq_of_lt hx]

end Ieee
