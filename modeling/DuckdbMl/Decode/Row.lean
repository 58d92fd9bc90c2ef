import DuckdbMl.Decode.Chunk
import DuckdbMl.Failure.Basic

/-!
# Rows: decoding through codecs

A row decodes cell by cell, each cell checked (`decodeRow`), or, below a limit that the chunk's
types and masks give, without the checks (`row`).

## Main definitions

* `Floats`: the floating-point types
* `Codec`, `Fields`: the codecs of a row
* `column`, `decodeRow`: the checked path
* `get`, `curried`, `row`, `limit`: the fast path

## Main results

* `row_eq_decodeRow`: below the limit the two paths give the same value or the same rejection
-/

namespace DuckdbMl.Decode

open DuckdbMl.Sql (Scalar)

/-- The two floating-point types: what their bits mean, and the conversions between them. A
`single` is exact as a `double`. -/
structure Floats where
  single : Type
  double : Type
  singleOfBits : BitVec 32 → single
  doubleOfBits : BitVec 64 → double
  widen : single → double
  narrow : double → single
  narrow_widen : ∀ x, narrow (widen x) = x

variable (F : Floats)

/-- The values of a scalar. -/
def Carrier : Scalar → Type
  | .bool => Bool
  | .int8 => BitVec 8
  | .int16 => BitVec 16
  | .int32 | .date => BitVec 32
  | .int64 | .timestampS | .timestampMs | .timestampUs | .timestampNs | .timestampTz => BitVec 64
  | .float32 => F.single
  | .float64 => F.double
  | .string | .blob => List UInt8

inductive Plan : Type → Type 1
  | identity (scalar : Scalar) : Plan (Carrier F scalar)
  | plan {α : Type} (scalar : Scalar) (decode : Carrier F scalar → Except Reason α) : Plan α

inductive Codec : Type → Type 1
  | nonNull {α : Type} (plan : Plan F α) : Codec α
  | nullable {α : Type} (plan : Plan F α) : Codec (Option α)

/-- The codecs of a row, with the curried type of its row function. -/
inductive Fields (ρ : Type) : Type → Type 1
  | nil : Fields ρ ρ
  | cons {α φ : Type} (codec : Codec F α) (rest : Fields ρ φ) : Fields ρ (α → φ)

variable {F}

def Plan.scalar {α : Type} : Plan F α → Scalar
  | .identity scalar => scalar
  | .plan scalar _ => scalar

def Fields.length {ρ φ : Type} : Fields F ρ φ → ℕ
  | .nil => 0
  | .cons _ rest => rest.length + 1

def scalars : List Scalar :=
  [.bool, .int8, .int16, .int32, .int64, .float32, .float64, .string, .blob, .date, .timestampS,
    .timestampMs, .timestampUs, .timestampNs, .timestampTz]

def typeName (id : ℕ) : String :=
  match scalars.find? (Scalar.nativeId · = id) with
  | some s => s.name
  | none => "type " ++ toString id

/-! ### The checked path -/

section Checked

variable (k : Chunk)

/-- A floating-point element as a double. -/
def Chunk.float (F : Floats) (c row : ℕ) : F.double :=
  (k.vectors[c]?).elim (F.doubleOfBits 0) fun x =>
    if x.type = Scalar.nativeId .float32 then
      F.widen (F.singleOfBits ((x.element row).setWidth 32))
    else F.doubleOfBits (x.element row)

/-- A scalar read through the representation it crosses the boundary in. An OCaml `int` has 63
bits. -/
def Chunk.read (F : Floats) (c row : ℕ) : (s : Scalar) → Carrier F s
  | .bool => decide (k.int64 c row ≠ 0)
  | .int8 => ((k.int64 c row).setWidth 63).setWidth 8
  | .int16 => ((k.int64 c row).setWidth 63).setWidth 16
  | .int32 => (k.int64 c row).setWidth 32
  | .date => (k.int64 c row).setWidth 32
  | .int64 => k.int64 c row
  | .timestampS => k.int64 c row
  | .timestampMs => k.int64 c row
  | .timestampUs => k.int64 c row
  | .timestampNs => k.int64 c row
  | .timestampTz => k.int64 c row
  | .float32 => F.narrow (k.float F c row)
  | .float64 => k.float F c row
  | .string => k.string c row
  | .blob => k.string c row

def checkType (c : ℕ) (s : Scalar) : Except Cause Unit :=
  if k.columnType c = Scalar.nativeId s then .ok ()
  else .error (.typeMismatch c s.name (typeName (k.columnType c)))

/-- A cell, `none` where it is NULL. -/
def getScalar (F : Floats) (c row : ℕ) (s : Scalar) : Except Cause (Option (Carrier F s)) := do
  checkType k c s
  return if k.valid c row then some (k.read F c row s) else none

def decodePlan {α : Type} (c row : ℕ) : Plan F α → Except Cause (Option α)
  | .identity s => getScalar k F c row s
  | .plan s decode => do
    match ← getScalar k F c row s with
    | none => return none
    | some b =>
      match decode b with
      | .ok a => return some a
      | .error reason => throw (.decodeRejected c row reason)

/-- `Query.column`: one cell through its codec. -/
def column {α : Type} (c row : ℕ) (codec : Codec F α) : Except Cause α :=
  if k.columnCount ≤ c then .error (.index c k.columnCount)
  else if k.rows ≤ row then .error (.index row k.rows)
  else match codec with
    | .nullable plan => decodePlan k c row plan
    | .nonNull plan => do
      match ← decodePlan k c row plan with
      | none => throw (.null c row)
      | some a => return a

/-- Rows are reported absolute within the result: `seen` precede this chunk. -/
def absolute (seen : ℕ) : Cause → Cause
  | .null c row => .null c (seen + row)
  | .decodeRejected c row reason => .decodeRejected c (seen + row) reason
  | cause => cause

def decodeValue {α : Type} (c row seen : ℕ) (codec : Codec F α) : Except Cause α :=
  (column k c row codec).mapError (absolute seen)

def decodeRow {ρ φ : Type} (c row seen : ℕ) : Fields F ρ φ → φ → Except Cause ρ
  | .nil, fn => .ok fn
  | .cons codec fields, fn => do
    let value ← decodeValue k c row seen codec
    decodeRow (c + 1) row seen fields (fn value)

end Checked

/-! ### The fast path -/

section Fast

variable (k : Chunk)

/-- A custom codec's rejection, raised with its column. -/
structure Rejected where
  column : ℕ
  reason : Reason

def limitFrom {ρ φ : Type} (c length : ℕ) : Fields F ρ φ → ℕ
  | .nil => length
  | .cons (.nonNull plan) rest =>
    if k.columnType c ≠ Scalar.nativeId plan.scalar then 0
    else min ((k.viewFirstNull c length).getD length) (limitFrom (c + 1) length rest)
  | .cons (.nullable plan) rest =>
    if k.columnType c ≠ Scalar.nativeId plan.scalar then 0
    else min length (limitFrom (c + 1) length rest)

/-- The rows below which no check is needed. -/
def limit {ρ φ : Type} (fields : Fields F ρ φ) (length : ℕ) : ℕ :=
  if k.columnCount < fields.length then 0 else limitFrom k 0 length fields

def base (F : Floats) (c row : ℕ) : (s : Scalar) → Carrier F s
  | .int64 => k.viewBits 64 c row
  | .timestampS => k.viewBits 64 c row
  | .timestampMs => k.viewBits 64 c row
  | .timestampUs => k.viewBits 64 c row
  | .timestampNs => k.viewBits 64 c row
  | .timestampTz => k.viewBits 64 c row
  | .int32 => k.viewBits 32 c row
  | .date => k.viewBits 32 c row
  | .int16 => ((k.viewBits 16 c row).signExtend 63).setWidth 16
  | .int8 => ((k.viewBits 8 c row).signExtend 63).setWidth 8
  | .bool => k.viewBool c row
  | .float64 => F.doubleOfBits (k.viewBits 64 c row)
  | .float32 => F.singleOfBits (k.viewBits 32 c row)
  | .string => k.string c row
  | .blob => k.string c row

def planValue {α : Type} (c row : ℕ) : Plan F α → Except Rejected α
  | .identity s => .ok (base k F c row s)
  | .plan s decode =>
    match decode (base k F c row s) with
    | .ok a => .ok a
    | .error reason => .error ⟨c, reason⟩

def get {α : Type} (c row : ℕ) : Codec F α → Except Rejected α
  | .nonNull plan => planValue k c row plan
  | .nullable plan => if k.viewValid c row then some <$> planValue k c row plan else .ok none

def curried {ρ φ : Type} (c row : ℕ) : Fields F ρ φ → φ → Except Rejected ρ
  | .nil, fn => .ok fn
  | .cons codec rest, fn => do
    let x ← get k c row codec
    curried (c + 1) row rest (fn x)

/-- A row through its codecs, in column order: saturated application up to arity 8. -/
def row {ρ φ : Type} (fields : Fields F ρ φ) (fn : φ) (index : ℕ) : Except Rejected ρ :=
  match fields with
  | .nil => .ok fn
  | .cons a .nil => do
    let a ← get k 0 index a
    return fn a
  | .cons a (.cons b .nil) => do
    let a ← get k 0 index a
    let b ← get k 1 index b
    return fn a b
  | .cons a (.cons b (.cons c .nil)) => do
    let a ← get k 0 index a
    let b ← get k 1 index b
    let c ← get k 2 index c
    return fn a b c
  | .cons a (.cons b (.cons c (.cons d .nil))) => do
    let a ← get k 0 index a
    let b ← get k 1 index b
    let c ← get k 2 index c
    let d ← get k 3 index d
    return fn a b c d
  | .cons a (.cons b (.cons c (.cons d (.cons e .nil)))) => do
    let a ← get k 0 index a
    let b ← get k 1 index b
    let c ← get k 2 index c
    let d ← get k 3 index d
    let e ← get k 4 index e
    return fn a b c d e
  | .cons a (.cons b (.cons c (.cons d (.cons e (.cons f .nil))))) => do
    let a ← get k 0 index a
    let b ← get k 1 index b
    let c ← get k 2 index c
    let d ← get k 3 index d
    let e ← get k 4 index e
    let f ← get k 5 index f
    return fn a b c d e f
  | .cons a (.cons b (.cons c (.cons d (.cons e (.cons f (.cons g .nil)))))) => do
    let a ← get k 0 index a
    let b ← get k 1 index b
    let c ← get k 2 index c
    let d ← get k 3 index d
    let e ← get k 4 index e
    let f ← get k 5 index f
    let g ← get k 6 index g
    return fn a b c d e f g
  | .cons a (.cons b (.cons c (.cons d (.cons e (.cons f (.cons g (.cons h rest))))))) => do
    let a ← get k 0 index a
    let b ← get k 1 index b
    let c ← get k 2 index c
    let d ← get k 3 index d
    let e ← get k 4 index e
    let f ← get k 5 index f
    let g ← get k 6 index g
    let h ← get k 7 index h
    curried k 8 index rest (fn a b c d e f g h)

end Fast

/-! ### Agreement -/

section Agreement

variable {k : Chunk} {c i : ℕ}

theorem setWidth_signExtend {w v : ℕ} (h : w ≤ v) (x : BitVec w) :
    (x.signExtend v).setWidth w = x := by
  refine BitVec.eq_of_getLsbD_eq fun i hi => ?_
  rw [BitVec.getLsbD_setWidth, BitVec.getLsbD_signExtend]
  simp [hi, show i < v by omega]

theorem viewBits_eq {n : ℕ} {x : Vector} (hx : k.vectors[c]? = some x) (hi : i < k.rows)
    (hw : typeWidth x.type = n / 8) : k.viewBits n c i = (x.element i).setWidth n := by
  simp [Chunk.viewBits, Chunk.readable, hx, hi, hw]

/-- **The two reads agree** on a row of the chunk in a column of the scalar's type. -/
theorem base_eq_read {s : Scalar} (ht : k.columnType c = Scalar.nativeId s) (hi : i < k.rows) :
    base k F c i s = k.read F c i s := by
  obtain ⟨x, hx⟩ : ∃ x, k.vectors[c]? = some x := by
    cases hx : k.vectors[c]? with
    | some x => exact ⟨x, rfl⟩
    | none =>
      rw [Chunk.columnType, hx] at ht
      cases s <;> cases ht
  have htype : x.type = Scalar.nativeId s := by simpa [Chunk.columnType, hx] using ht
  have hbits : ∀ n, typeWidth x.type = n / 8 → k.viewBits n c i = (x.element i).setWidth n :=
    fun n => viewBits_eq hx hi
  have hint : k.int64 c i = x.int64 i := by simp [Chunk.int64, hx]
  rw [htype] at hbits
  rw [Vector.int64, htype] at hint
  -- a narrow integer survives its extension to 64 bits and the cut to an OCaml `int`
  have narrow : ∀ {n} (y : BitVec n), n ≤ 63 →
      (y.signExtend 63).setWidth n = ((y.signExtend 64).setWidth 63).setWidth n := fun y hn => by
    rw [BitVec.setWidth_setWidth_of_le _ hn, setWidth_signExtend hn,
      setWidth_signExtend (by omega)]
  cases s with
  | bool =>
    rw [if_pos rfl] at hint
    have : k.viewBool c i = decide (k.int64 c i ≠ 0) := by
      rw [hint, Chunk.viewBool, hbits 8 rfl]
      by_cases hb : (x.element i).setWidth 8 = 0 <;> simp [hb]
    exact this
  | int8 =>
    rw [if_neg (by decide), if_pos rfl] at hint
    have := narrow ((x.element i).setWidth 8) (by decide)
    rw [← hint, ← hbits 8 rfl] at this
    exact this
  | int16 =>
    rw [if_neg (by decide), if_neg (by decide), if_pos rfl] at hint
    have := narrow ((x.element i).setWidth 16) (by decide)
    rw [← hint, ← hbits 16 rfl] at this
    exact this
  | int32 =>
    rw [if_neg (by decide), if_neg (by decide), if_neg (by decide), if_pos (by decide)] at hint
    have : k.viewBits 32 c i = (k.int64 c i).setWidth 32 := by
      rw [hint, hbits 32 rfl, setWidth_signExtend (by decide)]
    exact this
  | date =>
    rw [if_neg (by decide), if_neg (by decide), if_neg (by decide), if_pos (by decide)] at hint
    have : k.viewBits 32 c i = (k.int64 c i).setWidth 32 := by
      rw [hint, hbits 32 rfl, setWidth_signExtend (by decide)]
    exact this
  | float32 =>
    have : k.float F c i = F.widen (F.singleOfBits ((x.element i).setWidth 32)) := by
      simp [Chunk.float, hx, htype]
    have hn : F.singleOfBits (k.viewBits 32 c i) = F.narrow (k.float F c i) := by
      rw [this, F.narrow_widen, hbits 32 rfl]
    exact hn
  | float64 =>
    have : k.float F c i = F.doubleOfBits (x.element i) := by
      simp [Chunk.float, hx, htype, Scalar.nativeId]
    have hd : F.doubleOfBits (k.viewBits 64 c i) = k.float F c i := by
      rw [this, hbits 64 rfl, BitVec.setWidth_eq]
    exact hd
  | string => rfl
  | blob => rfl
  | int64 | timestampS | timestampMs | timestampUs | timestampNs | timestampTz =>
    rw [if_neg (by decide), if_neg (by decide), if_neg (by decide), if_neg (by decide)] at hint
    have : k.viewBits 64 c i = k.int64 c i := by rw [hbits 64 rfl, hint, BitVec.setWidth_eq]
    exact this

/-- **The cases by arity** are one recursion over the columns. -/
theorem row_eq_curried {ρ φ : Type} (fields : Fields F ρ φ) (fn : φ) (i : ℕ) :
    row k fields fn i = curried k 0 i fields fn := by
  unfold row
  split <;> rfl

/-- The rejection of a custom codec, with its row. -/
def Rejected.cause (row : ℕ) (r : Rejected) : Cause := .decodeRejected r.column row r.reason

def Codec.scalar {α : Type} : Codec F α → Scalar
  | .nonNull plan => plan.scalar
  | .nullable plan => plan.scalar

theorem getScalar_eq {s : Scalar} (ht : k.columnType c = Scalar.nativeId s) :
    getScalar k F c i s = .ok (if k.valid c i then some (k.read F c i s) else none) := by
  rw [getScalar, checkType, if_pos ht]
  rfl

theorem decodePlan_eq {α : Type} {plan : Plan F α}
    (ht : k.columnType c = Scalar.nativeId plan.scalar) (hi : i < k.rows) :
    decodePlan k c i plan = if k.valid c i then
      some <$> (planValue k c i plan).mapError (Rejected.cause i) else .ok none := by
  cases plan with
  | identity s =>
    have ht : k.columnType c = Scalar.nativeId s := ht
    rw [decodePlan, getScalar_eq ht, planValue, base_eq_read ht hi]
    split <;> rfl
  | plan s decode =>
    have ht : k.columnType c = Scalar.nativeId s := ht
    rw [decodePlan, getScalar_eq ht, planValue, base_eq_read ht hi]
    split
    case isTrue =>
      change (match decode (k.read F c i s) with
        | .ok a => Except.ok (some a)
        | .error reason => .error (Cause.decodeRejected c i reason)) = _
      cases decode (k.read F c i s) <;> rfl
    case isFalse => rfl

/-- **A cell that needs no check**: its column has the codec's type, its row is in the chunk, and
it is not NULL where the codec has no NULL. -/
theorem column_eq_get {α : Type} {codec : Codec F α} (hc : c < k.columnCount) (hi : i < k.rows)
    (ht : k.columnType c = Scalar.nativeId codec.scalar)
    (hv : ∀ plan, codec = .nonNull plan → k.valid c i = true) :
    column k c i codec = (get k c i codec).mapError (Rejected.cause i) := by
  cases codec with
  | nonNull plan =>
    have ht : k.columnType c = Scalar.nativeId plan.scalar := ht
    simp only [column, get, if_neg (Nat.not_le.mpr hc), if_neg (Nat.not_le.mpr hi),
      decodePlan_eq ht hi, if_pos (hv plan rfl)]
    cases planValue k c i plan <;> rfl
  | nullable plan =>
    have ht : k.columnType c = Scalar.nativeId plan.scalar := ht
    have hvalid : k.viewValid c i = k.valid c i := by
      simp only [Chunk.viewValid, Chunk.valid, hi, decide_true, Bool.true_and]
    simp only [column, get, if_neg (Nat.not_le.mpr hc), if_neg (Nat.not_le.mpr hi), hvalid,
      decodePlan_eq ht hi]
    split
    · cases planValue k c i plan <;> rfl
    · rfl

/-- What a row below the limit is known to have. -/
theorem limitFrom_cons {ρ φ α : Type} {codec : Codec F α} {rest : Fields F ρ φ}
    (h : i < limitFrom k c k.rows (.cons codec rest)) (hc : c < k.columnCount) :
    k.columnType c = Scalar.nativeId codec.scalar ∧ i < k.rows ∧
      (∀ plan, codec = .nonNull plan → k.valid c i = true) ∧
      i < limitFrom k (c + 1) k.rows rest := by
  cases codec with
  | nonNull plan =>
    rw [limitFrom] at h
    split at h
    case isTrue => omega
    case isFalse ht =>
      obtain ⟨hnull, hrest⟩ := Nat.lt_min.mp h
      exact ⟨not_not.mp ht, Chunk.lt_rows_of_lt_viewFirstNull hnull,
        fun _ _ => Chunk.valid_of_lt_viewFirstNull hc hnull, hrest⟩
  | nullable plan =>
    rw [limitFrom] at h
    split at h
    case isTrue => omega
    case isFalse ht =>
      obtain ⟨hi, hrest⟩ := Nat.lt_min.mp h
      exact ⟨not_not.mp ht, hi, (fun _ hp => nomatch hp), hrest⟩

/-- **The fast path** of a row below the limit is the checked one. -/
theorem curried_eq {ρ φ : Type} {fields : Fields F ρ φ} {fn : φ} (seen : ℕ)
    (hc : c + fields.length ≤ k.columnCount) (h : i < limitFrom k c k.rows fields) :
    decodeRow k c i seen fields fn = (curried k c i fields fn).mapError (Rejected.cause (seen + i))
    := by
  induction fields generalizing c with
  | nil => rfl
  | cons codec rest ih =>
    have hlen : c + (rest.length + 1) ≤ k.columnCount := hc
    obtain ⟨ht, hi, hv, hrest⟩ := limitFrom_cons h (by omega)
    rw [decodeRow, curried, decodeValue, column_eq_get (by omega) hi ht hv]
    cases get k c i codec with
    | error r => rfl
    | ok a => exact @ih (c + 1) (fn a) (by omega) hrest

theorem row_eq_decodeRow {ρ φ : Type} {fields : Fields F ρ φ} {fn : φ} (seen : ℕ)
    (h : i < limit k fields k.rows) :
    decodeRow k 0 i seen fields fn =
      (row k fields fn i).mapError (Rejected.cause (seen + i)) := by
  rw [limit] at h
  split at h
  case isTrue => omega
  case isFalse hc => rw [row_eq_curried, curried_eq seen (by omega) h]

end Agreement

end DuckdbMl.Decode
