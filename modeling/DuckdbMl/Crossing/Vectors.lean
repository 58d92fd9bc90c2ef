import DuckdbMl.Appender.Staging
import DuckdbMl.Bytes.Basic

/-!
# Vectors in memory

The stubs read and write the elements of a vector at the width that they take from the engine's
type of the column, and copy whole columns between a vector and a Bigarray.

## Main definitions

* `Datum`, `Buffer`: a value of the engine, and a vector with its bytes
* `Holds`: a row of a vector has a value
* `bindInt64`, `bindFloat`, `bindString`: what a parameter is bound to
* `stageInt64`, `stageFloat`, `stageString`, `stageBlit`: what is written to a staged vector
* `chunkInt64`, `chunkFloat`, `viewRead`, `viewReadOr`, `viewBlit`: what is read of a fetched one

## Main results

* `Buffer.vector`: the bytes as the vectors of chunks that rows are decoded from
* `viewRead_eq`, `chunkInt64_eq`: reads by width and by type agree with the reads of these
-/

namespace DuckdbMl.Crossing

open DuckdbMl.Decode (Floats Carrier Chunk Scalar.nativeId typeWidth)
open DuckdbMl.Appender (Engine ofId ofId_nativeId)
open DuckdbMl.Appender.Owner (Kind stageKind)
open DuckdbMl.Sql (Scalar)

/-- The bits of a floating-point value. -/
structure Bits (F : Floats) where
  single : F.single → BitVec 32
  double : F.double → BitVec 64
  singleOfBits_single : ∀ x, F.singleOfBits (single x) = x
  doubleOfBits_double : ∀ x, F.doubleOfBits (double x) = x

/-- A value of the engine. -/
structure Datum (F : Floats) where
  scalar : Scalar
  value : Carrier F scalar

/-- A vector: the type of its column, the bytes of its elements or its strings, and the mask. -/
structure Buffer where
  type : ℕ
  data : Bytes.Memory
  text : ℕ → List UInt8
  validity : Option (ℕ → BitVec 64)

/-- `((T *)data)[i]` for an element type of `n` bits. -/
def Buffer.get (n : ℕ) (b : Buffer) (i : ℕ) : BitVec n := Bytes.load n b.data (n / 8 * i)

def Buffer.put {n : ℕ} (b : Buffer) (i : ℕ) (x : BitVec n) : Buffer :=
  { b with data := Bytes.store b.data (n / 8 * i) x }

/-- The vector with its elements at the width of its type. -/
def Buffer.vector (b : Buffer) : Decode.Vector where
  type := b.type
  element i := (b.get (8 * typeWidth b.type) i).setWidth 64
  text := b.text
  validity := b.validity

def Buffer.valid (b : Buffer) (i : ℕ) : Bool := b.vector.validRow i

variable {F : Floats}

/-- The bytes of a row are those of a value. -/
def Buffer.content (F : Floats) (b : Buffer) (i : ℕ) : (s : Scalar) → Carrier F s → Prop
  | .bool, v => b.get 8 i = cond v 1 0
  | .int8, v => b.get 8 i = v
  | .int16, v => b.get 16 i = v
  | .int32, v => b.get 32 i = v
  | .date, v => b.get 32 i = v
  | .int64, v => b.get 64 i = v
  | .timestampS, v => b.get 64 i = v
  | .timestampMs, v => b.get 64 i = v
  | .timestampUs, v => b.get 64 i = v
  | .timestampNs, v => b.get 64 i = v
  | .timestampTz, v => b.get 64 i = v
  | .float32, v => F.singleOfBits (b.get 32 i) = v
  | .float64, v => F.doubleOfBits (b.get 64 i) = v
  | .string, v => b.text i = v
  | .blob, v => b.text i = v

/-- **A row holds a value** of the engine. -/
structure Holds (b : Buffer) (i : ℕ) (d : Datum F) : Prop where
  type : b.type = Scalar.nativeId d.scalar
  valid : b.valid i = true
  content : b.content F i d.scalar d.value

/-! ### Bigarrays -/

def Kind.width : Kind → ℕ
  | .uint8 | .sint8 => 1
  | .sint16 => 2
  | .int32 | .float32 => 4
  | .int64 | .float64 => 8

/-- The OCaml values of elements. An OCaml `int` has 63 bits. -/
inductive Element (F : Floats)
  | int (x : BitVec 63)
  | int32 (x : BitVec 32)
  | int64 (x : BitVec 64)
  | float (x : F.double)

/-- A one-dimensional Bigarray. -/
structure Bigarray where
  kind : Kind
  data : Bytes.Memory
  dim : ℕ

def Bigarray.bits (a : Bigarray) (n i : ℕ) : BitVec n := Bytes.load n a.data (n / 8 * i)

/-- `a.{i}`. -/
def Bigarray.at (F : Floats) (a : Bigarray) (i : ℕ) : Element F :=
  match a.kind with
  | .uint8 => .int ((a.bits 8 i).setWidth 63)
  | .sint8 => .int ((a.bits 8 i).signExtend 63)
  | .sint16 => .int ((a.bits 16 i).signExtend 63)
  | .int32 => .int32 (a.bits 32 i)
  | .int64 => .int64 (a.bits 64 i)
  | .float32 => .float (F.widen (F.singleOfBits (a.bits 32 i)))
  | .float64 => .float (F.doubleOfBits (a.bits 64 i))

def Bigarray.elementSize (a : Bigarray) : ℕ := if a.dim = 0 then 0 else Kind.width a.kind

/-! ### Writing -/

section Writing

variable (B : Bits F) (G : Engine)

def bindInt64 (t : ℕ) (x : BitVec 64) : Option (Datum F) :=
  match ofId t with
  | some .bool => some ⟨.bool, decide (x ≠ 0)⟩
  | some .int8 => some ⟨.int8, x.setWidth 8⟩
  | some .int16 => some ⟨.int16, x.setWidth 16⟩
  | some .int32 => some ⟨.int32, x.setWidth 32⟩
  | some .int64 => some ⟨.int64, x⟩
  | some .date => some ⟨.date, x.setWidth 32⟩
  | some .timestampUs => some ⟨.timestampUs, x⟩
  | some .timestampTz => some ⟨.timestampTz, x⟩
  | some .timestampS => some ⟨.timestampS, x⟩
  | some .timestampMs => some ⟨.timestampMs, x⟩
  | some .timestampNs => some ⟨.timestampNs, x⟩
  | _ => none

def bindFloat (t : ℕ) (x : F.double) : Option (Datum F) :=
  if t = Scalar.nativeId .float32 then some ⟨.float32, F.narrow x⟩ else some ⟨.float64, x⟩

/-- The engine refuses text that is not valid UTF-8. -/
def bindString (t : ℕ) (text : List UInt8) : Option (Datum F) :=
  if t = Scalar.nativeId .blob then some ⟨.blob, text⟩
  else if (G.invalid text).isSome then none else some ⟨.string, text⟩

def stageInt64 (b : Buffer) (row : ℕ) (x : BitVec 64) : Buffer :=
  match ofId b.type with
  | some .bool => b.put row (if x ≠ 0 then 1#8 else 0#8)
  | some .int8 => b.put row (x.setWidth 8)
  | some .int16 => b.put row (x.setWidth 16)
  | some .int32 | some .date => b.put row (x.setWidth 32)
  | some .int64 | some .timestampUs | some .timestampS | some .timestampMs | some .timestampNs
  | some .timestampTz => b.put row x
  | _ => b

def stageFloat (b : Buffer) (row : ℕ) (x : F.double) : Buffer :=
  match ofId b.type with
  | some .float32 => b.put row (B.single (F.narrow x))
  | some .float64 => b.put row (B.double x)
  | _ => b

/-- Text that is not valid UTF-8 fails the batch. -/
def stageString (b : Buffer) (row : ℕ) (text : List UInt8) : Option Buffer :=
  if b.type = Scalar.nativeId .string then
    if (G.invalid text).isSome then none
    else some { b with text := Function.update b.text row text }
  else if b.type = Scalar.nativeId .blob then
    some { b with text := Function.update b.text row text }
  else some b

/-- The elements `[pos, pos + n)` of a Bigarray go to the first rows, as they are but for booleans;
a range or a kind that does not fit fails the batch. -/
def stageBlit (b : Buffer) (rows : ℕ) (a : Bigarray) (pos n : ℕ) : Option Buffer :=
  if n = 0 ∨ rows < n ∨ a.dim < pos + n then none
  else if typeWidth b.type = 0 ∨ stageKind b.type ≠ some a.kind then none
  else if b.type = Scalar.nativeId .bool then
    some ((List.range n).foldl (fun b i => b.put i (if a.bits 8 (pos + i) ≠ 0 then 1#8 else 0#8)) b)
  else
    let w := typeWidth b.type
    some { b with data := Bytes.copy b.data a.data 0 (pos * w) (n * w) }

end Writing

/-! ### Reading -/

section Reading

variable (b : Buffer)

def chunkInt64 (row : ℕ) : BitVec 64 :=
  match ofId b.type with
  | some .bool => if b.get 8 row ≠ 0 then 1 else 0
  | some .int8 => (b.get 8 row).signExtend 64
  | some .int16 => (b.get 16 row).signExtend 64
  | some .int32 | some .date => (b.get 32 row).signExtend 64
  | _ => b.get 64 row

def chunkFloat (F : Floats) (row : ℕ) : F.double :=
  if b.type = Scalar.nativeId .float32 then F.widen (F.singleOfBits (b.get 32 row))
  else F.doubleOfBits (b.get 64 row)

/-- An element of `n` bits, 0 for a refused read. -/
def viewRead (n rows row : ℕ) : BitVec n :=
  if row < rows ∧ typeWidth b.type = n / 8 then b.get n row else 0

/-- An element of `n` bits, `d` for a refused read or a NULL row. -/
def viewReadOr (n rows row : ℕ) (d : BitVec n) : BitVec n :=
  if (row < rows ∧ typeWidth b.type = n / 8) ∧ b.valid row then b.get n row else d

def viewValid (rows row : ℕ) : Bool := decide (row < rows) && b.valid row

/-- The first `length` rows go to `[pos, pos + length)` of a Bigarray, 0 for a NULL row. -/
def viewBlit (rows length : ℕ) (a : Bigarray) (pos : ℕ) : Bigarray :=
  let w := typeWidth b.type
  if rows < length ∨ w = 0 ∨ w ≠ a.elementSize ∨ a.dim < pos + length then a
  else
    let copied := Bytes.copy a.data b.data (pos * w) 0 (length * w)
    { a with
      data := (List.range length).foldl
        (fun m i => if b.valid i then m else Bytes.fill m (pos * w + i * w) w 0) copied }

end Reading

/-! ### The bytes as elements -/

section Vector

variable {b : Buffer} {s : Scalar} {i n : ℕ}

theorem vector_element (hw : typeWidth b.type = n / 8) (hn : 8 ∣ n) (hle : n ≤ 64) :
    (b.vector.element i).setWidth n = b.get n i := by
  have h8 : 8 * (n / 8) = n := Nat.mul_div_cancel' hn
  change ((b.get (8 * typeWidth b.type) i).setWidth 64).setWidth n = _
  rw [hw, h8, BitVec.setWidth_setWidth_of_le _ hle, BitVec.setWidth_eq]

variable {k : Chunk} {c : ℕ}

/-- A read by width. -/
theorem viewRead_eq (hk : k.vectors[c]? = some b.vector) (hn : 8 ∣ n) (hle : n ≤ 64) :
    k.viewBits n c i = viewRead b n k.rows i := by
  rw [Chunk.viewBits, Chunk.readable, hk]
  change (if i < k.rows ∧ typeWidth b.type = n / 8 then some b.vector else none).elim 0 _ = _
  unfold viewRead
  split
  case isTrue h => exact vector_element h.2 hn hle
  case isFalse => rfl

/-- A read by type. -/
theorem chunkInt64_eq (hk : k.vectors[c]? = some b.vector) (ht : b.type = Scalar.nativeId s)
    (hs : typeWidth (Scalar.nativeId s) ≠ 0) (hf : s ≠ .float32) :
    k.int64 c i = chunkInt64 b i := by
  have hvector : k.int64 c i = b.vector.int64 i := by rw [Chunk.int64, hk, Option.elim_some]
  have helement : ∀ n, typeWidth (Scalar.nativeId s) = n / 8 → 8 ∣ n → n ≤ 64 →
      (b.vector.element i).setWidth n = b.get n i := fun n hw => vector_element (ht ▸ hw)
  have htype : b.vector.type = Scalar.nativeId s := ht
  rw [hvector, Decode.Vector.int64, htype, chunkInt64, ht, ofId_nativeId]
  cases s with
  | bool => rw [if_pos rfl, helement 8 rfl (by decide) (by decide)]
  | int8 => rw [if_neg (by decide), if_pos rfl, helement 8 rfl (by decide) (by decide)]
  | int16 =>
    rw [if_neg (by decide), if_neg (by decide), if_pos rfl, helement 16 rfl (by decide) (by decide)]
  | int32 | date =>
    rw [if_neg (by decide), if_neg (by decide), if_neg (by decide), if_pos (by decide),
      helement 32 rfl (by decide) (by decide)]
  | float32 => exact absurd rfl hf
  | string | blob => exact absurd rfl hs
  | float64 | int64 | timestampS | timestampMs | timestampUs | timestampNs | timestampTz =>
    rw [if_neg (by decide), if_neg (by decide), if_neg (by decide), if_neg (by decide),
      ← helement 64 rfl (by decide) (by decide), BitVec.setWidth_eq]

end Vector

end DuckdbMl.Crossing
