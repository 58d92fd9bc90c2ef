import DuckdbMl.Decode.Chunk

/-!
# Validity masks: the word-wise scans

The stubs that count the NULL rows of a column and find the first one read its mask a word at a
time, the last word in part. Here a read past the mask and a shift by the width of a word are
faults, and lengths are any integers.

## Main definitions

* `Mask`, `Fault`: a mask with the words that may be read, and what C leaves undefined
* `nullCount`, `firstNull`, `validRow`: the stubs
* `isNull`: the row is NULL

## Main results

* `countFrom_spec`, `firstFrom_spec`: the scans from a word on
* `scans_exact`: the scans agree with the test of each row, and no scan faults
-/

namespace DuckdbMl.Decode.View

/-! ### The stubs -/

/-- Undefined behaviour in C: a word past the mask, or a shift by 64 or more. -/
inductive Fault
  | word (w : ℕ)
  | shift (n : ℤ)
  deriving DecidableEq, Repr

/-- A validity mask, of which the first `words` words may be read. -/
structure Mask where
  bits : ℕ → BitVec 64
  words : ℕ

def Mask.word (mask : Mask) (w : ℕ) : Except Fault (BitVec 64) :=
  if w < mask.words then .ok (mask.bits w) else .error (.word w)

def shiftOne (n : ℤ) : Except Fault (BitVec 64) :=
  if 0 ≤ n ∧ n < 64 then .ok (1#64 <<< n.toNat) else .error (.shift n)

/-- The rows of word `w` that are below `n`. -/
def wanted (n : ℤ) (w : ℕ) : Except Fault (BitVec 64) := do
  let inWord := if n - w * 64 < 64 then n - w * 64 else 64
  if inWord = 64 then return BitVec.allOnes 64 else return (← shiftOne inWord) - 1#64

def popcount (bits : BitVec 64) : ℕ := (List.range 64).countP (bits.getLsbD ·)

/-- The cached vector of a column, of which these stubs read the mask: absent for a column that is
not cached, and without a mask where no row is NULL. -/
abbrev Cached := Option (Option Mask)

def validRow (x : Option Mask) (i : ℕ) : Except Fault Bool :=
  match x with
  | none => .ok true
  | some mask => do return (← mask.word (i / 64)).getLsbD (i % 64)

/-- The count from word `w` on. -/
def countFrom (mask : Mask) (n : ℤ) (w count : ℕ) : Except Fault ℤ :=
  if w * 64 < n then do
    let wanted ← wanted n w
    let bits ← mask.word w
    countFrom mask n (w + 1) (count + popcount (~~~bits &&& wanted))
  else .ok count
  termination_by (n - w * 64).toNat

/-- NULL rows among the first `length` rows of the chunk; 0 without a mask. -/
def nullCount (x : Cached) (rows : ℕ) (length : ℤ) : Except Fault ℤ :=
  match x with
  | none | some none => .ok 0
  | some (some mask) => countFrom mask (if length > rows then rows else length) 0 0

/-- The search from word `w` on. -/
def firstFrom (mask : Mask) (n : ℤ) (w : ℕ) : Except Fault ℤ :=
  if w * 64 < n then do
    let bits ← mask.word w
    let wanted ← wanted n w
    let missing := ~~~bits &&& wanted
    if missing ≠ 0 then return w * 64 + ctz missing else firstFrom mask n (w + 1)
  else .ok (-1)
  termination_by (n - w * 64).toNat

/-- The first NULL row in `[0, length)`, or -1. -/
def firstNull (x : Cached) (rows : ℕ) (length : ℤ) : Except Fault ℤ :=
  match x with
  | none | some none => .ok (-1)
  | some (some mask) => firstFrom mask (if length > rows then rows else length) 0

/-! ### Rows -/

/-- The row is NULL: there is a mask, and its bit is clear. -/
def isNull (x : Cached) (i : ℕ) : Bool :=
  match x with
  | none | some none => false
  | some (some mask) => !maskBit mask.bits i

/-- The rows that a scan of `length` rows covers: none for a negative length, and no more than the
chunk has. -/
def covered (rows : ℕ) (length : ℤ) : ℕ := (min length rows).toNat

/-- The words that hold the bits of `n` rows. -/
def wordsFor (n : ℕ) : ℕ := (n + 63) / 64

/-! ### One word -/

section Word

variable {mask : Mask} {n : ℤ} {w : ℕ}

theorem lt_toNat_iff : ((w : ℤ) * 64 < n) ↔ w * 64 < n.toNat := by omega

/-- The mask of the wanted rows never shifts by 64. -/
theorem wanted_eq (h : (w : ℤ) * 64 < n) : ∃ b, wanted n w = .ok b ∧
    ∀ bits : ℕ → BitVec 64, ~~~(bits w) &&& b = missing bits n.toNat w := by
  rw [wanted]
  by_cases hfull : n - w * 64 < 64
  · have hone : shiftOne (n - w * 64) = .ok (1#64 <<< (n - w * 64).toNat) :=
      if_pos ⟨by omega, hfull⟩
    have hne : n - (w : ℤ) * 64 ≠ 64 := by omega
    refine ⟨1#64 <<< (n - w * 64).toNat - 1#64, ?_, fun bits => ?_⟩
    · simp only [if_pos hfull, if_neg hne, hone]
      rfl
    · have hnat : n.toNat - w * 64 < 64 := by omega
      have hto : (n - (w : ℤ) * 64).toNat = n.toNat - w * 64 := by omega
      rw [missing, if_pos hnat, if_neg (by omega), hto]
  · refine ⟨BitVec.allOnes 64, ?_, fun bits => ?_⟩
    · simp only [if_neg hfull, if_true]
      rfl
    · rw [missing, if_neg (show ¬ n.toNat - w * 64 < 64 by omega), if_pos rfl]

/-- A word with rows to scan may be read. -/
theorem word_eq (hw : wordsFor n.toNat ≤ mask.words) (h : (w : ℤ) * 64 < n) :
    mask.word w = .ok (mask.bits w) := by
  have hlt : w < wordsFor n.toNat := by
    rw [wordsFor]
    omega
  exact if_pos (Nat.lt_of_lt_of_le hlt hw)

/-- The bits missing from a word are its NULL rows below `n`. -/
theorem popcount_missing (bits : ℕ → BitVec 64) {n : ℕ} (h : w * 64 < n) :
    popcount (missing bits n w) =
      (List.range' (w * 64) (min 64 (n - w * 64))).countP fun i => !maskBit bits i := by
  have hsplit : List.range 64 = List.range (min 64 (n - w * 64)) ++
      List.range' (min 64 (n - w * 64)) (64 - min 64 (n - w * 64)) := by
    have happ := @List.range'_append_1 0 (min 64 (n - w * 64)) (64 - min 64 (n - w * 64))
    rw [Nat.zero_add, Nat.add_sub_cancel' (Nat.min_le_left ..)] at happ
    rw [List.range_eq_range', List.range_eq_range', happ]
  have hzero : (List.range' (min 64 (n - w * 64)) (64 - min 64 (n - w * 64))).countP
      ((missing bits n w).getLsbD ·) = 0 := by
    rw [List.countP_eq_zero]
    intro j hj
    have := List.mem_range'_1.mp hj
    rw [getLsbD_missing h, decide_eq_false (by omega)]
    simp
  have hlow : List.range' (w * 64) (min 64 (n - w * 64)) =
      (List.range (min 64 (n - w * 64))).map (w * 64 + ·) := by
    rw [List.range_eq_range', List.map_add_range']
    rfl
  rw [popcount, hsplit, List.countP_append, hzero, Nat.add_zero, hlow, List.countP_map]
  refine List.countP_congr fun j hj => ?_
  have hj := List.mem_range.mp hj
  have hdiv : (w * 64 + j) / 64 = w ∧ (w * 64 + j) % 64 = j := by omega
  rw [getLsbD_missing h, decide_eq_true (by omega), Bool.true_and, Function.comp_apply, maskBit,
    hdiv.1, hdiv.2]

end Word

/-! ### The scans -/

section Scans

variable {mask : Mask} {n : ℤ} {w : ℕ}

/-- The count goes on with the rows of the words that are left. -/
theorem countFrom_spec (hw : wordsFor n.toNat ≤ mask.words) (count : ℕ) :
    countFrom mask n w count = .ok (count +
      ((List.range' (w * 64) (n.toNat - w * 64)).countP fun i => !maskBit mask.bits i : ℕ)) := by
  fun_induction countFrom mask n w count with
  | case1 w count hlt ih =>
    obtain ⟨b, hb, hmissing⟩ := wanted_eq hlt
    have hnat : w * 64 < n.toNat := lt_toNat_iff.mp hlt
    have hrange : List.range' (w * 64) (n.toNat - w * 64) =
        List.range' (w * 64) (min 64 (n.toNat - w * 64)) ++
          List.range' ((w + 1) * 64) (n.toNat - (w + 1) * 64) := by
      rcases Nat.le_total 64 (n.toNat - w * 64) with h64 | h64
      · rw [Nat.min_eq_left h64, Nat.succ_mul, List.range'_append_1]
        congr 1
        omega
      · rw [Nat.min_eq_right h64, show n.toNat - (w + 1) * 64 = 0 by omega, List.range'_zero,
          List.append_nil]
    rw [hb, word_eq hw hlt]
    change countFrom mask n (w + 1) (count + popcount (~~~(mask.bits w) &&& b)) = _
    rw [ih, hmissing mask.bits, popcount_missing mask.bits hnat, hrange, List.countP_append]
    congr 1
    omega
  | case2 w count hge =>
    rw [Nat.sub_eq_zero_of_le (by omega), List.range'_zero, List.countP_nil]
    rfl

/-- The search finds what the pure scan of the mask does. -/
theorem firstFrom_spec (hw : wordsFor n.toNat ≤ mask.words) :
    firstFrom mask n w = .ok (((scanNull mask.bits n.toNat w).map Int.ofNat).getD (-1)) := by
  fun_induction firstFrom mask n w with
  | case1 w hlt ih =>
    obtain ⟨b, hb, hmissing⟩ := wanted_eq hlt
    rw [word_eq hw hlt, hb, scanNull, if_pos (lt_toNat_iff.mp hlt), ← hmissing mask.bits]
    change (if ~~~(mask.bits w) &&& b ≠ 0 then _ else _) = _
    split
    · rfl
    · exact ih
  | case2 w hge =>
    rw [scanNull, if_neg (fun h => hge (lt_toNat_iff.mpr h))]
    rfl

end Scans

/-- **The scans are exact.** For every mask or none, and every length, the count of NULL rows and
the search for the first one cover the rows below the length and the size of the chunk, agree with
the test of each row, read no word past those that hold these rows, and shift by less than 64. -/
theorem scans_exact (x : Cached) (rows : ℕ) (length : ℤ)
    (hwords : ∀ mask, x = some (some mask) → wordsFor (covered rows length) ≤ mask.words) :
    nullCount x rows length =
        .ok ((List.range (covered rows length)).countP (isNull x) : ℕ) ∧
      firstNull x rows length =
        .ok ((((List.range (covered rows length)).find? (isNull x)).map Int.ofNat).getD (-1)) ∧
      ∀ v, x = some v → ∀ i < covered rows length, validRow v i = .ok (!isNull x i) := by
  have hn : covered rows length = (if length > rows then (rows : ℤ) else length).toNat := by
    rw [covered]
    split <;> omega
  -- without a mask no row is NULL
  have habsent : (∀ i, isNull x i = false) →
      (List.range (covered rows length)).countP (isNull x) = 0 ∧
        (List.range (covered rows length)).find? (isNull x) = none := fun h => by
    simp [h]
  rcases x with _ | _ | mask
  · obtain ⟨hcount, hfind⟩ := habsent fun _ => rfl
    rw [hcount, hfind]
    exact ⟨rfl, rfl, fun v hv => by cases hv⟩
  · obtain ⟨hcount, hfind⟩ := habsent fun _ => rfl
    rw [hcount, hfind]
    refine ⟨rfl, rfl, fun v hv i _ => ?_⟩
    cases hv
    rfl
  · have hw := hwords mask rfl
    rw [hn] at hw
    refine ⟨?_, ?_, fun v hv i hi => ?_⟩
    · rw [nullCount, countFrom_spec hw, hn, List.range_eq_range', Nat.zero_mul, Nat.sub_zero,
        Int.natCast_zero, Int.zero_add]
      rfl
    · rw [firstNull, firstFrom_spec hw, hn]
      have hscan := @scanNull_spec mask.bits
        (if length > rows then (rows : ℤ) else length).toNat 0 (by simp)
      cases hs : scanNull mask.bits (if length > rows then (rows : ℤ) else length).toNat 0 with
      | none =>
        rw [hs] at hscan
        rw [List.find?_eq_none.mpr fun i hi => by simp [isNull, hscan i (List.mem_range.mp hi)]]
      | some i =>
        rw [hs] at hscan
        have hfind : (List.range (if length > rows then (rows : ℤ) else length).toNat).find?
            (isNull (some (some mask))) = some i :=
          List.find?_range_eq_some.mpr ⟨by simp [isNull, hscan.2.1], List.mem_range.mpr hscan.1,
            fun j hj => by simp [isNull, hscan.2.2 j hj]⟩
        rw [hfind]
    · cases hv
      have hlt : i / 64 < mask.words := by
        rw [hn] at hi
        rw [wordsFor] at hw
        omega
      rw [validRow, Mask.word, if_pos hlt]
      simp [isNull, maskBit, pure, Except.pure, bind, Except.bind]

/-- Two words, of which row 65 is NULL. -/
def secondWord : Mask := ⟨fun w => if w = 0 then BitVec.allOnes 64 else 1#64, 2⟩

theorem scans_secondWord : nullCount (some (some secondWord)) 70 66 = .ok 1 ∧
    firstNull (some (some secondWord)) 70 100 = .ok 65 := by
  have hwords : ∀ length mask, some (some secondWord) = some (some mask) →
      wordsFor (covered 70 length) ≤ mask.words := by
    rintro length _ ⟨⟩
    change (covered 70 length + 63) / 64 ≤ 2
    rw [covered]
    omega
  exact ⟨(scans_exact _ 70 66 (hwords 66)).1.trans (congrArg Except.ok (by decide +kernel)),
    (scans_exact _ 70 100 (hwords 100)).2.1.trans (congrArg Except.ok (by decide +kernel))⟩

end DuckdbMl.Decode.View
