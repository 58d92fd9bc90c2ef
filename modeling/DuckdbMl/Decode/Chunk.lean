import DuckdbMl.Sql.Syntax
import Mathlib.Algebra.Group.Nat.Defs
import Mathlib.Data.List.Basic

/-!
# Chunks: vectors, validity masks and the two ways to read them

The engine hands out a result in chunks: a vector for each column, with one element and one
validity bit a row. The `chunk` stubs read through the engine's type of a column, the `view`
stubs through a cached width.

## Main definitions

* `Vector`, `Chunk`: a fetched chunk
* `Chunk.valid`, `Chunk.viewValid`, `Chunk.viewFirstNull`: validity of rows
* `Chunk.int64`, `Chunk.string`: reads by type
* `Chunk.viewBits`: reads by width

## Main results

* `scanNull_spec`: the word-wise scan finds the first NULL row
* `Chunk.valid_of_lt_viewFirstNull`: below it every row is valid
-/

namespace DuckdbMl.Decode

open DuckdbMl.Sql (Scalar)

/-! ### Types -/

/-- The engine's type identifiers. -/
def invalid : ℕ := 0

def anyType : ℕ := 34

def Scalar.nativeId : Scalar → ℕ
  | .bool => 1
  | .int8 => 2
  | .int16 => 3
  | .int32 => 4
  | .int64 => 5
  | .float32 => 10
  | .float64 => 11
  | .timestampUs => 12
  | .date => 13
  | .string => 17
  | .blob => 18
  | .timestampS => 20
  | .timestampMs => 21
  | .timestampNs => 22
  | .timestampTz => 31

/-- The bytes of an element, 0 for a type that is not read by width. -/
def typeWidth (t : ℕ) : ℕ :=
  if t = 1 ∨ t = 2 then 1
  else if t = 3 then 2
  else if t = 4 ∨ t = 13 ∨ t = 10 then 4
  else if t = 5 ∨ t = 11 ∨ t = 12 ∨ t = 20 ∨ t = 21 ∨ t = 22 ∨ t = 31 then 8
  else 0

/-! ### Chunks -/

/-- The vector of a column: the bits of its elements, the bytes of its strings, and a validity
mask of 64 rows a word, absent where no row is NULL. -/
structure Vector where
  type : ℕ
  element : ℕ → BitVec 64
  text : ℕ → List UInt8
  validity : Option (ℕ → BitVec 64)

structure Chunk where
  rows : ℕ
  vectors : List Vector

/-- The bit of a row in a mask. -/
def maskBit (mask : ℕ → BitVec 64) (i : ℕ) : Bool := (mask (i / 64)).getLsbD (i % 64)

def Vector.validRow (x : Vector) (i : ℕ) : Bool :=
  match x.validity with
  | none => true
  | some mask => maskBit mask i

variable (k : Chunk)

def Chunk.columnCount : ℕ := k.vectors.length

def Chunk.columnType (c : ℕ) : ℕ := (k.vectors[c]?).elim invalid Vector.type

/-! ### Reads by type -/

def Chunk.valid (c row : ℕ) : Bool := (k.vectors[c]?).elim false (·.validRow row)

/-- An integral element, extended to 64 bits by the type of its column. -/
def Vector.int64 (x : Vector) (row : ℕ) : BitVec 64 :=
  if x.type = Scalar.nativeId .bool then
    if (x.element row).setWidth 8 ≠ 0 then 1 else 0
  else if x.type = Scalar.nativeId .int8 then ((x.element row).setWidth 8).signExtend 64
  else if x.type = Scalar.nativeId .int16 then ((x.element row).setWidth 16).signExtend 64
  else if x.type = Scalar.nativeId .int32 ∨ x.type = Scalar.nativeId .date then
    ((x.element row).setWidth 32).signExtend 64
  else x.element row

def Chunk.int64 (c row : ℕ) : BitVec 64 := (k.vectors[c]?).elim 0 (·.int64 row)

def Chunk.string (c row : ℕ) : List UInt8 := (k.vectors[c]?).elim [] (·.text row)

/-! ### Reads by width -/

/-- The vector of a column when the row is in the chunk and its elements have the width. -/
def Chunk.readable (c row width : ℕ) : Option Vector :=
  match k.vectors[c]? with
  | none => none
  | some x => if row < k.rows ∧ typeWidth x.type = width then some x else none

/-- The low `n` bits of an element of `n / 8` bytes, 0 for a refused read. -/
def Chunk.viewBits (n : ℕ) (c row : ℕ) : BitVec n :=
  (k.readable c row (n / 8)).elim 0 fun x => (x.element row).setWidth n

def Chunk.viewBool (c row : ℕ) : Bool := k.viewBits 8 c row ≠ 0

def Chunk.viewValid (c row : ℕ) : Bool :=
  (k.vectors[c]?).elim false fun x => decide (row < k.rows) && x.validRow row

/-- The number of trailing zeros. -/
def ctz (bits : BitVec 64) : ℕ := ((List.range 64).find? (bits.getLsbD ·)).getD 64

/-- The rows of word `w` that are NULL and below `n`. -/
def missing (mask : ℕ → BitVec 64) (n w : ℕ) : BitVec 64 :=
  let inWord := if n - w * 64 < 64 then n - w * 64 else 64
  let wanted := if inWord = 64 then BitVec.allOnes 64 else 1#64 <<< inWord - 1#64
  ~~~(mask w) &&& wanted

/-- The scan of a mask from word `w` on. -/
def scanNull (mask : ℕ → BitVec 64) (n w : ℕ) : Option ℕ :=
  if w * 64 < n then
    if missing mask n w ≠ 0 then some (w * 64 + ctz (missing mask n w))
    else scanNull mask n (w + 1)
  else none
  termination_by n - w * 64

/-- The first NULL row below `length`; `none` stands for -1. -/
def Chunk.viewFirstNull (c length : ℕ) : Option ℕ :=
  match k.vectors[c]? with
  | none => none
  | some x =>
    match x.validity with
    | none => none
    | some mask => scanNull mask (min length k.rows) 0

/-! ### The scan -/

section Scan

variable {mask : ℕ → BitVec 64} {n w : ℕ}

theorem toNat_lowBits {i : ℕ} (hi : i < 64) : (1#64 <<< i - 1#64).toNat = 2 ^ i - 1 := by
  have hlt : 2 ^ i < 2 ^ 64 := Nat.pow_lt_pow_right (by decide) hi
  have hpos : 0 < 2 ^ i := Nat.two_pow_pos i
  have hone : (1#64 <<< i).toNat = 2 ^ i := by
    rw [BitVec.toNat_shiftLeft, Nat.shiftLeft_eq]
    simpa using Nat.mod_eq_of_lt hlt
  rw [BitVec.toNat_sub, hone]
  have : (1#64).toNat = 1 := rfl
  omega

theorem getLsbD_missing (hw : w * 64 < n) (j : ℕ) :
    (missing mask n w).getLsbD j = (decide (j < 64 ∧ w * 64 + j < n) && !(mask w).getLsbD j) := by
  have hwanted : ∀ i, 0 < i → i ≤ 64 →
      (if i = 64 then BitVec.allOnes 64 else 1#64 <<< i - 1#64).getLsbD j = decide (j < i) := by
    intro i hpos hle
    split
    case isTrue h => rw [BitVec.getLsbD_allOnes, h]
    case isFalse h =>
      rw [← BitVec.testBit_toNat, toNat_lowBits (by omega), Nat.testBit_two_pow_sub_one]
  have hin : (if n - w * 64 < 64 then n - w * 64 else 64) = min (n - w * 64) 64 := by
    split <;> omega
  rw [missing, hin, BitVec.getLsbD_and, hwanted _ (by omega) (by omega), BitVec.getLsbD_not]
  by_cases hj : j < 64
  · by_cases hn : w * 64 + j < n
    · have : j < min (n - w * 64) 64 := by omega
      simp [hj, hn, this]
    · have : ¬ j < min (n - w * 64) 64 := by omega
      simp [hj, hn, this]
  · simp [hj]

theorem ctz_spec {b : BitVec 64} (hb : b ≠ 0) :
    b.getLsbD (ctz b) = true ∧ ∀ j < ctz b, b.getLsbD j = false := by
  have hex : ∃ j ∈ List.range 64, b.getLsbD j = true := by
    by_contra hall
    refine hb (BitVec.eq_of_getLsbD_eq fun j hj => ?_)
    have : ¬ b.getLsbD j = true := fun h => hall ⟨j, List.mem_range.mpr hj, h⟩
    simpa using this
  cases hf : (List.range 64).find? (b.getLsbD ·) with
  | none =>
    obtain ⟨j, hj, hbj⟩ := hex
    exact absurd hbj (List.find?_eq_none.mp hf j hj)
  | some i =>
    obtain ⟨hi, -, hno⟩ := List.find?_range_eq_some.mp hf
    rw [ctz, hf, Option.getD_some]
    exact ⟨hi, fun j hj => by simpa using hno j hj⟩

/-- **The word-wise scan** finds the first row below `n` whose bit is clear. -/
theorem scanNull_spec (hprev : ∀ i < w * 64, i < n → maskBit mask i = true) :
    match scanNull mask n w with
    | some i => i < n ∧ maskBit mask i = false ∧ ∀ j < i, maskBit mask j = true
    | none => ∀ j < n, maskBit mask j = true := by
  fun_induction scanNull mask n w with
  | case1 w hw hm =>
    obtain ⟨hbit, hno⟩ := ctz_spec hm
    rw [getLsbD_missing hw, Bool.and_eq_true, decide_eq_true_eq, Bool.not_eq_true'] at hbit
    obtain ⟨⟨hlt, hn⟩, hclear⟩ := hbit
    have hdiv : ∀ i < 64, (w * 64 + i) / 64 = w ∧ (w * 64 + i) % 64 = i := fun i hi => by omega
    refine ⟨hn, ?_, fun j hj => ?_⟩
    · rw [maskBit, (hdiv _ hlt).1, (hdiv _ hlt).2, hclear]
    · by_cases hjw : j < w * 64
      · exact hprev j hjw (by omega)
      · -- a row of this word before the first that is missing
        obtain ⟨i, rfl⟩ := Nat.exists_eq_add_of_le (Nat.le_of_not_lt hjw)
        have hi := hno i (by omega)
        rw [getLsbD_missing hw, decide_eq_true (by omega), Bool.true_and,
          Bool.not_eq_false'] at hi
        rw [maskBit, (hdiv i (by omega)).1, (hdiv i (by omega)).2, hi]
  | case2 w hw hm ih =>
    refine ih fun j hj hjn => ?_
    by_cases hjw : j < w * 64
    · exact hprev j hjw hjn
    · obtain ⟨i, rfl⟩ := Nat.exists_eq_add_of_le (Nat.le_of_not_lt hjw)
      have hi : (missing mask n w).getLsbD i = false := by simp [not_not.mp hm]
      rw [getLsbD_missing hw, decide_eq_true (by omega), Bool.true_and, Bool.not_eq_false'] at hi
      have hdiv : (w * 64 + i) / 64 = w ∧ (w * 64 + i) % 64 = i := by omega
      rw [maskBit, hdiv.1, hdiv.2, hi]
  | case3 w hw => exact fun j hj => hprev j (by omega) hj

end Scan

theorem Chunk.lt_rows_of_lt_viewFirstNull {k : Chunk} {c i : ℕ}
    (hi : i < (k.viewFirstNull c k.rows).getD k.rows) : i < k.rows := by
  rw [viewFirstNull] at hi
  split at hi
  case h_1 => exact hi
  case h_2 x hx =>
    split at hi
    case h_1 => exact hi
    case h_2 mask hmask =>
      rw [Nat.min_self] at hi
      have hs := @scanNull_spec mask k.rows 0 (by simp)
      cases hscan : scanNull mask k.rows 0 with
      | none =>
        rw [hscan] at hi
        exact hi
      | some row =>
        rw [hscan] at hs hi
        exact Nat.lt_trans hi hs.1

/-- **Below the first NULL row** of a chunk every row is valid. -/
theorem Chunk.valid_of_lt_viewFirstNull {k : Chunk} {c i : ℕ} (hc : c < k.columnCount)
    (hi : i < (k.viewFirstNull c k.rows).getD k.rows) : k.valid c i = true := by
  obtain ⟨x, hx⟩ : ∃ x, k.vectors[c]? = some x := ⟨k.vectors[c], List.getElem?_eq_getElem hc⟩
  rw [viewFirstNull, hx] at hi
  rw [valid, hx, Option.elim_some, Vector.validRow]
  cases hv : x.validity with
  | none => rfl
  | some mask =>
    simp only [hv, Nat.min_self] at hi ⊢
    have hs := @scanNull_spec mask k.rows 0 (by simp)
    cases hscan : scanNull mask k.rows 0 with
    | none =>
      rw [hscan] at hs hi
      exact hs i hi
    | some row =>
      rw [hscan] at hs hi
      exact hs.2.2 i hi

end DuckdbMl.Decode
