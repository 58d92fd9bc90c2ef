import DuckdbMl.Computation.Basic
import DuckdbMl.Crossing.Vectors

/-!
# Scalars across the boundary

A scalar is bound as a parameter, staged row by row or copied from a Bigarray; it is read of a chunk
cell by cell, through a column view, by the fast decoder or into a Bigarray.

## Main definitions

* `Repr`, `repr`: how a scalar crosses
* `bindValue`, `stageBase`: the writers by cell
* `read`, `base`, `columnValue`, `columnOr`: the readers by cell
* `Crosses`: every writer makes the same value of the engine, and every reader has it back

## Main results

* `crosses`: every value of every scalar crosses
-/

namespace DuckdbMl.Crossing

open DuckdbMl.Decode (Floats Carrier Chunk Scalar.nativeId typeWidth setWidth_signExtend)
open DuckdbMl.Appender (Engine ofId ofId_nativeId)
open DuckdbMl.Appender.Owner (Kind stageKind)
open DuckdbMl.Sql (Scalar)

variable {F : Floats}

/-! ### Representations -/

/-- A scalar crosses as an integer of 64 bits, as a double or as bytes. -/
inductive Repr (F : Floats) : Type → Type 1
  | integer {α : Type} (encode : α → BitVec 64) (decode : BitVec 64 → α) : Repr F α
  | floating {α : Type} (encode : α → F.double) (decode : F.double → α) : Repr F α
  | bytes : Repr F (List UInt8)

/-- An integer of `n` bits crosses through an OCaml `int`, which has 63. -/
def Repr.narrow (n : ℕ) : Repr F (BitVec n) :=
  .integer (fun x => (x.signExtend 63).signExtend 64) fun x => (x.setWidth 63).setWidth n

def Repr.int32 : Repr F (BitVec 32) := .integer (·.signExtend 64) (·.setWidth 32)

def Repr.int64 : Repr F (BitVec 64) := .integer id id

def repr : (s : Scalar) → Repr F (Carrier F s)
  | .bool => .integer (fun b : Bool => cond b 1 0) fun x => (decide (x ≠ 0) : Bool)
  | .int8 => .narrow 8
  | .int16 => .narrow 16
  | .int32 => .int32
  | .date => .int32
  | .int64 => .int64
  | .timestampS => .int64
  | .timestampMs => .int64
  | .timestampUs => .int64
  | .timestampNs => .int64
  | .timestampTz => .int64
  | .float32 => .floating F.widen F.narrow
  | .float64 => .floating id id
  | .string => .bytes
  | .blob => .bytes

/-! ### Writers -/

section Writers

variable (B : Bits F) (G : Engine)

def bindRepr {α : Type} (id : ℕ) : Repr F α → α → Option (Datum F)
  | .integer encode _, value => bindInt64 id (encode value)
  | .floating encode _, value => bindFloat id (encode value)
  | .bytes, value => bindString G id value

/-- What a parameter is bound to. -/
def bindValue (s : Scalar) (value : Carrier F s) : Option (Datum F) :=
  bindRepr G (Scalar.nativeId s) (repr s) value

/-- A value of a row goes to the staged vector of its column. -/
def stageBase (b : Buffer) (row : ℕ) : (s : Scalar) → Carrier F s → Option Buffer
  | .int64, x => some (stageInt64 b row x)
  | .timestampS, x => some (stageInt64 b row x)
  | .timestampMs, x => some (stageInt64 b row x)
  | .timestampUs, x => some (stageInt64 b row x)
  | .timestampNs, x => some (stageInt64 b row x)
  | .timestampTz, x => some (stageInt64 b row x)
  | .int32, x => some (stageInt64 b row (BitVec.signExtend (w := 32) 64 x))
  | .date, x => some (stageInt64 b row (BitVec.signExtend (w := 32) 64 x))
  | .int16, x => some (stageInt64 b row ((BitVec.signExtend (w := 16) 63 x).signExtend 64))
  | .int8, x => some (stageInt64 b row ((BitVec.signExtend (w := 8) 63 x).signExtend 64))
  | .bool, x => some (stageInt64 b row (((cond x 1 0 : BitVec 63)).signExtend 64))
  | .float64, x => some (stageFloat B b row x)
  | .float32, x => some (stageFloat B b row (F.widen x))
  | .string, x => stageString G b row x
  | .blob, x => stageString G b row x

end Writers

/-- The kind of the Bigarrays for a scalar; there is none for strings. -/
def bulkKind : Scalar → Option Kind
  | .bool => some .uint8
  | .int8 => some .sint8
  | .int16 => some .sint16
  | .int32 | .date => some .int32
  | .int64 | .timestampS | .timestampMs | .timestampUs | .timestampNs | .timestampTz => some .int64
  | .float32 => some .float32
  | .float64 => some .float64
  | .string | .blob => none

/-- The element of a Bigarray for a value. -/
def element : (s : Scalar) → Carrier F s → Option (Element F)
  | .bool, v => some (.int (cond v 1 0))
  | .int8, v => some (.int (BitVec.signExtend (w := 8) 63 v))
  | .int16, v => some (.int (BitVec.signExtend (w := 16) 63 v))
  | .int32, v => some (.int32 v)
  | .date, v => some (.int32 v)
  | .int64, v => some (.int64 v)
  | .timestampS, v => some (.int64 v)
  | .timestampMs, v => some (.int64 v)
  | .timestampUs, v => some (.int64 v)
  | .timestampNs, v => some (.int64 v)
  | .timestampTz, v => some (.int64 v)
  | .float32, v => some (.float (F.widen v))
  | .float64, v => some (.float v)
  | .string, _ => none
  | .blob, _ => none

/-! ### Readers -/

section Readers

variable (b : Buffer) (rows row : ℕ)

def readRepr {α : Type} : Repr F α → α
  | .integer _ decode => decode (chunkInt64 b row)
  | .floating _ decode => decode (chunkFloat b F row)
  | .bytes => b.text row

/-- A cell of a chunk. -/
def read (s : Scalar) : Carrier F s := readRepr b row (repr s)

/-- A cell for the fast decoder. -/
def base : (s : Scalar) → Carrier F s
  | .int64 => viewRead b 64 rows row
  | .timestampS => viewRead b 64 rows row
  | .timestampMs => viewRead b 64 rows row
  | .timestampUs => viewRead b 64 rows row
  | .timestampNs => viewRead b 64 rows row
  | .timestampTz => viewRead b 64 rows row
  | .int32 => viewRead b 32 rows row
  | .date => viewRead b 32 rows row
  | .int16 => ((viewRead b 16 rows row).signExtend 63).setWidth 16
  | .int8 => ((viewRead b 8 rows row).signExtend 63).setWidth 8
  | .bool => decide (viewRead b 8 rows row ≠ 0)
  | .float64 => F.doubleOfBits (viewRead b 64 rows row)
  | .float32 => F.singleOfBits (viewRead b 32 rows row)
  | .string => b.text row
  | .blob => b.text row

/-- The accessor of a column view for a scalar: `none` is `Invalid_argument`, and a view has the
rows of its chunk. -/
def columnValue (s : Scalar) : Option (Carrier F s) :=
  if row < rows then some (base b rows row s) else none

/-- The accessors that give `default` for a NULL row; a string is an option there. -/
def orDefault (B : Bits F) : (s : Scalar) → Carrier F s → Carrier F s
  | .int64, d => viewReadOr b 64 rows row d
  | .timestampS, d => viewReadOr b 64 rows row d
  | .timestampMs, d => viewReadOr b 64 rows row d
  | .timestampUs, d => viewReadOr b 64 rows row d
  | .timestampNs, d => viewReadOr b 64 rows row d
  | .timestampTz, d => viewReadOr b 64 rows row d
  | .int32, d => viewReadOr b 32 rows row d
  | .date, d => viewReadOr b 32 rows row d
  | .int16, d =>
    ((viewReadOr b 16 rows row ((BitVec.signExtend (w := 16) 63 d).setWidth 16)).signExtend
      63).setWidth 16
  | .int8, d =>
    ((viewReadOr b 8 rows row ((BitVec.signExtend (w := 8) 63 d).setWidth 8)).signExtend
      63).setWidth 8
  | .bool, d => decide (viewReadOr b 8 rows row (cond d 1 0) ≠ 0)
  | .float64, d => F.doubleOfBits (viewReadOr b 64 rows row (B.double d))
  | .float32, d => F.singleOfBits (viewReadOr b 32 rows row (B.single d))
  | .string, d => if viewValid b rows row then b.text row else d
  | .blob, d => if viewValid b rows row then b.text row else d

def columnOr (B : Bits F) (s : Scalar) (d : Carrier F s) : Option (Carrier F s) :=
  if row < rows then some (orDefault b rows row B s d) else none

end Readers

/-! ### Rows and what they hold -/

section Rows

variable {b b' : Buffer} {s : Scalar} {v : Carrier F s} {i row n : ℕ}

theorem get_put (hn : 8 ∣ n) (x : BitVec n) : (b.put row x).get n row = x := Bytes.load_store hn x

theorem get_put_of_ne (hn : 8 ∣ n) (x : BitVec n) (h : i ≠ row) :
    (b.put row x).get n i = b.get n i := by
  refine Bytes.load_store_of_disjoint hn x ?_
  rcases Nat.lt_or_gt_of_ne h with hlt | hlt
  · exact .inl (Nat.mul_le_mul_left (n / 8) hlt)
  · exact .inr (Nat.mul_le_mul_left (n / 8) hlt)

/-- What a row holds is in its own bytes, at the width of the type. -/
theorem content_congr (hget : ∀ n, typeWidth (Scalar.nativeId s) = n / 8 → 8 ∣ n →
    b'.get n i = b.get n i) (htext : b'.text i = b.text i) (h : b.content F i s v) :
    b'.content F i s v := by
  cases s with
  | bool | int8 => exact (hget 8 rfl (by decide)).trans h
  | int16 => exact (hget 16 rfl (by decide)).trans h
  | int32 | date => exact (hget 32 rfl (by decide)).trans h
  | int64 | timestampS | timestampMs | timestampUs | timestampNs | timestampTz =>
    exact (hget 64 rfl (by decide)).trans h
  | float32 => exact (congrArg F.singleOfBits (hget 32 rfl (by decide))).trans h
  | float64 => exact (congrArg F.doubleOfBits (hget 64 rfl (by decide))).trans h
  | string | blob => exact htext.trans h

theorem valid_congr (h : b'.validity = b.validity) (i : ℕ) : b'.valid i = b.valid i := by
  simp only [Buffer.valid, Decode.Vector.validRow, Buffer.vector, h]

theorem Holds.congr {d : Datum F} (h : Holds b i d) (ht : b'.type = b.type)
    (hv : b'.validity = b.validity)
    (hget : ∀ n, typeWidth b.type = n / 8 → 8 ∣ n → b'.get n i = b.get n i)
    (htext : b'.text i = b.text i) : Holds b' i d where
  type := ht.trans h.type
  valid := (valid_congr hv i).trans h.valid
  content := content_congr (fun n hw hn => hget n (h.type ▸ hw) hn) htext h.content

/-- A write of a row leaves the others. -/
def Wrote (b b' : Buffer) (row : ℕ) (d : Datum F) : Prop :=
  Holds b' row d ∧ ∀ i, i ≠ row → ∀ d' : Datum F, Holds b i d' → Holds b' i d'

theorem wrote_put (ht : b.type = Scalar.nativeId s) (hv : b.valid row = true) (hn : 8 ∣ n)
    (hw : typeWidth (Scalar.nativeId s) = n / 8) {x : BitVec n}
    (hc : (b.put row x).content F row s v) : Wrote b (b.put row x) row ⟨s, v⟩ := by
  refine ⟨⟨ht, hv, hc⟩, fun i hi d' h => h.congr rfl rfl (fun m hm hm8 => ?_) rfl⟩
  obtain rfl : m = n := by
    rw [ht, hw] at hm
    omega
  exact get_put_of_ne hn x hi

theorem wrote_text (ht : b.type = Scalar.nativeId s) (hv : b.valid row = true)
    {text : List UInt8} (hc : (Buffer.content F { b with
      text := Function.update b.text row text } row s v)) :
    Wrote b { b with text := Function.update b.text row text } row ⟨s, v⟩ :=
  ⟨⟨ht, hv, hc⟩, fun _ hi _ h => h.congr rfl rfl (fun _ _ _ => rfl) (Function.update_of_ne hi ..)⟩

/-- An integer survives its way through an OCaml `int` and 64 bits. -/
theorem narrow_widen {n : ℕ} (x : BitVec n) (hn : n ≤ 63) :
    ((x.signExtend 63).signExtend 64).setWidth n = x := by
  rw [← BitVec.setWidth_setWidth_of_le ((x.signExtend 63).signExtend 64) hn,
    setWidth_signExtend (by decide), setWidth_signExtend hn]

theorem widen_narrow {n : ℕ} (x : BitVec n) (hn : n ≤ 63) :
    ((x.signExtend 64).setWidth 63).setWidth n = x := by
  rw [BitVec.setWidth_setWidth_of_le _ hn, setWidth_signExtend (by omega)]

/-- The engine takes the value: text is valid UTF-8. -/
def Accepted (G : Engine) : (s : Scalar) → Carrier F s → Prop
  | .string, text => G.invalid text = none
  | _, _ => True

variable (B : Bits F) (G : Engine)

/-- **A bound parameter** is the value, with its type. -/
theorem bindValue_eq (hv : Accepted G s v) : bindValue G s v = some ⟨s, v⟩ := by
  have hnarrow : ∀ {n : ℕ} (x : BitVec n), n ≤ 63 →
      ((x.signExtend 63).signExtend 64).setWidth n = x := fun x => narrow_widen x
  cases s with
  | bool => cases (v : Bool) <;> rfl
  | int8 => exact congrArg (fun x => some (Datum.mk Scalar.int8 x)) (hnarrow v (by decide))
  | int16 => exact congrArg (fun x => some (Datum.mk Scalar.int16 x)) (hnarrow v (by decide))
  | int32 =>
    exact congrArg (fun x => some (Datum.mk Scalar.int32 x)) (setWidth_signExtend (by decide) v)
  | date =>
    exact congrArg (fun x => some (Datum.mk Scalar.date x)) (setWidth_signExtend (by decide) v)
  | float32 => exact congrArg (fun x => some (Datum.mk Scalar.float32 x)) (F.narrow_widen v)
  | string =>
    have hstring : ∀ text : List UInt8, G.invalid text = none →
        bindString G (Scalar.nativeId .string) text = some (⟨.string, text⟩ : Datum F) :=
      fun text h => by simp [bindString, h, Scalar.nativeId]
    exact hstring v hv
  | int64 | float64 | blob | timestampS | timestampMs | timestampUs | timestampNs
  | timestampTz => rfl

/-- **A staged row** holds the value, and the other rows what they held. -/
theorem stageBase_wrote (hv : Accepted G s v) (ht : b.type = Scalar.nativeId s)
    (hvalid : b.valid row = true) :
    ∃ b', stageBase B G b row s v = some b' ∧ Wrote b b' row ⟨s, v⟩ := by
  have hput : ∀ {n} (x : BitVec n), 8 ∣ n → typeWidth (Scalar.nativeId s) = n / 8 →
      (b.put row x).content F row s v → Wrote b (b.put row x) row ⟨s, v⟩ :=
    fun x hn hw hc => wrote_put ht hvalid hn hw hc
  -- the switch of the stub takes the case of the scalar
  have hid : ofId b.type = some s := by rw [ht, ofId_nativeId]
  cases s with
  | bool =>
    have hint : ∀ x, stageInt64 b row x = b.put row (if x ≠ 0 then 1#8 else 0#8) :=
      fun x => by rw [stageInt64, hid]
    refine ⟨_, congrArg some (hint _), hput _ (by decide) rfl ?_⟩
    change (b.put row _).get 8 row = _
    rw [get_put (by decide)]
    cases (v : Bool) <;> rfl
  -- the narrow integers come as OCaml ints, of which the low bits are written
  | int8 =>
    have hint : ∀ x, stageInt64 b row x = b.put row (x.setWidth 8) :=
      fun x => by rw [stageInt64, hid]
    refine ⟨_, congrArg some (hint _), hput _ (by decide) rfl ?_⟩
    exact (get_put (by decide) _).trans (narrow_widen (n := 8) v (by decide))
  | int16 =>
    have hint : ∀ x, stageInt64 b row x = b.put row (x.setWidth 16) :=
      fun x => by rw [stageInt64, hid]
    refine ⟨_, congrArg some (hint _), hput _ (by decide) rfl ?_⟩
    exact (get_put (by decide) _).trans (narrow_widen (n := 16) v (by decide))
  | int32 | date =>
    have hint : ∀ x, stageInt64 b row x = b.put row (x.setWidth 32) :=
      fun x => by rw [stageInt64, hid]
    refine ⟨_, congrArg some (hint _), hput _ (by decide) rfl ?_⟩
    exact (get_put (by decide) _).trans (setWidth_signExtend (w := 32) (by decide) v)
  | int64 | timestampS | timestampMs | timestampUs | timestampNs | timestampTz =>
    have hint : ∀ x, stageInt64 b row x = b.put row x := fun x => by rw [stageInt64, hid]
    exact ⟨_, congrArg some (hint _), hput _ (by decide) rfl (get_put (by decide) _)⟩
  -- a float is narrowed to what it was widened from
  | float32 =>
    have hfloat : stageFloat B b row (F.widen v) = b.put row (B.single v) := by
      rw [stageFloat, hid]
      exact congrArg (fun x => b.put row (B.single x)) (F.narrow_widen v)
    refine ⟨_, congrArg some hfloat, hput _ (by decide) rfl ?_⟩
    exact (congrArg F.singleOfBits (get_put (by decide) _)).trans (B.singleOfBits_single v)
  | float64 =>
    have hfloat : ∀ x : F.double, stageFloat B b row x = b.put row (B.double x) :=
      fun x => by rw [stageFloat, hid]
    refine ⟨_, congrArg some (hfloat _), hput _ (by decide) rfl ?_⟩
    exact (congrArg F.doubleOfBits (get_put (by decide) _)).trans (B.doubleOfBits_double v)
  -- text is kept aside, once it has been found valid
  | string =>
    have hstring : ∀ text : List UInt8, G.invalid text = none → stageString G b row text =
        some { b with text := Function.update b.text row text } :=
      fun text h => by simp [stageString, h, ht]
    exact ⟨_, hstring v hv, wrote_text ht hvalid (Function.update_self ..)⟩
  | blob =>
    have hblob : ∀ text : List UInt8, stageString G b row text =
        some { b with text := Function.update b.text row text } :=
      fun text => by simp [stageString, ht, Scalar.nativeId]
    exact ⟨_, hblob v, wrote_text ht hvalid (Function.update_self ..)⟩

variable {B G} {rows : ℕ}

/-- **A cell of a chunk** is what the row holds. -/
theorem read_eq (h : Holds b row ⟨s, v⟩) : read b row s = v := by
  have hid : ofId b.type = some s := by rw [h.type, ofId_nativeId]
  have hc := h.content
  have hwide : ∀ {n} (x : BitVec n), n ≤ 64 → (x.signExtend 64).setWidth n = x :=
    fun x hn => setWidth_signExtend hn x
  cases s with
  | bool =>
    have hint : chunkInt64 b row = if b.get 8 row ≠ 0 then 1 else 0 := by rw [chunkInt64, hid]
    have hbool : ∀ v : Bool, b.get 8 row = cond v 1 0 → decide (chunkInt64 b row ≠ 0) = v := by
      intro v hv
      rw [hint, hv]
      cases v <;> rfl
    exact hbool v hc
  -- the element is extended to 64 bits, and cut to its width again
  | int8 =>
    have hint : chunkInt64 b row = (b.get 8 row).signExtend 64 := by rw [chunkInt64, hid]
    exact (congrArg (fun x : BitVec 64 => (x.setWidth 63).setWidth 8) hint).trans
      ((widen_narrow _ (by decide)).trans hc)
  | int16 =>
    have hint : chunkInt64 b row = (b.get 16 row).signExtend 64 := by rw [chunkInt64, hid]
    exact (congrArg (fun x : BitVec 64 => (x.setWidth 63).setWidth 16) hint).trans
      ((widen_narrow _ (by decide)).trans hc)
  | int32 | date =>
    have hint : chunkInt64 b row = (b.get 32 row).signExtend 64 := by rw [chunkInt64, hid]
    exact (congrArg (fun x : BitVec 64 => x.setWidth 32) hint).trans
      ((hwide _ (by decide)).trans hc)
  | int64 | timestampS | timestampMs | timestampUs | timestampNs | timestampTz =>
    have hint : chunkInt64 b row = b.get 64 row := by rw [chunkInt64, hid]
    exact hint.trans hc
  -- the type says which of the two widths is read
  | float32 =>
    have hfloat : chunkFloat b F row = F.widen (F.singleOfBits (b.get 32 row)) := by
      rw [chunkFloat, if_pos h.type]
    exact (congrArg F.narrow hfloat).trans ((F.narrow_widen _).trans hc)
  | float64 =>
    have hfloat : chunkFloat b F row = F.doubleOfBits (b.get 64 row) := by
      rw [chunkFloat, show b.type = Scalar.nativeId .float64 from h.type, if_neg (by decide)]
    exact hfloat.trans hc
  | string | blob => exact hc

theorem viewRead_of {n : ℕ} (h : Holds b row ⟨s, v⟩) (hr : row < rows)
    (hw : typeWidth (Scalar.nativeId s) = n / 8) : viewRead b n rows row = b.get n row := by
  rw [viewRead, if_pos ⟨hr, h.type ▸ hw⟩]

theorem viewReadOr_of {n : ℕ} {d : BitVec n} (h : Holds b row ⟨s, v⟩) (hr : row < rows)
    (hw : typeWidth (Scalar.nativeId s) = n / 8) : viewReadOr b n rows row d = b.get n row := by
  rw [viewReadOr, if_pos ⟨⟨hr, h.type ▸ hw⟩, h.valid⟩]

/-- **A read by width** is what the row holds. -/
theorem base_eq (h : Holds b row ⟨s, v⟩) (hr : row < rows) : base b rows row s = v := by
  have hc := h.content
  have hread : ∀ n, typeWidth (Scalar.nativeId s) = n / 8 → viewRead b n rows row = b.get n row :=
    fun n => viewRead_of h hr
  cases s with
  | bool =>
    have hbool : ∀ v : Bool, b.get 8 row = cond v 1 0 →
        decide (viewRead b 8 rows row ≠ 0) = v := by
      intro v hv
      rw [hread 8 rfl, hv]
      cases v <;> rfl
    exact hbool v hc
  | int8 =>
    exact (congrArg (fun x : BitVec 8 => (x.signExtend 63).setWidth 8) (hread 8 rfl)).trans
      ((setWidth_signExtend (by decide) _).trans hc)
  | int16 =>
    exact (congrArg (fun x : BitVec 16 => (x.signExtend 63).setWidth 16) (hread 16 rfl)).trans
      ((setWidth_signExtend (by decide) _).trans hc)
  | int32 | date => exact (hread 32 rfl).trans hc
  | int64 | timestampS | timestampMs | timestampUs | timestampNs | timestampTz =>
    exact (hread 64 rfl).trans hc
  | float32 => exact (congrArg F.singleOfBits (hread 32 rfl)).trans hc
  | float64 => exact (congrArg F.doubleOfBits (hread 64 rfl)).trans hc
  | string | blob => exact hc

/-- A read with a default is what a row holds that is not NULL. -/
theorem orDefault_eq (h : Holds b row ⟨s, v⟩) (hr : row < rows) (d : Carrier F s) :
    orDefault b rows row B s d = v := by
  have hc := h.content
  -- the row is valid, so that the default is not used
  have hread : ∀ {n} (d : BitVec n), typeWidth (Scalar.nativeId s) = n / 8 →
      viewReadOr b n rows row d = b.get n row := fun d => viewReadOr_of h hr
  have hvalid : viewValid b rows row = true := by
    rw [viewValid, h.valid, decide_eq_true hr, Bool.and_self]
  cases s with
  | bool =>
    have hbool : ∀ v d : Bool, b.get 8 row = cond v 1 0 →
        decide (viewReadOr b 8 rows row (cond d 1 0) ≠ 0) = v := by
      intro v d hv
      rw [hread _ rfl, hv]
      cases v <;> rfl
    exact hbool v d hc
  | int8 =>
    exact (congrArg (fun x : BitVec 8 => (x.signExtend 63).setWidth 8) (hread _ rfl)).trans
      ((setWidth_signExtend (by decide) _).trans hc)
  | int16 =>
    exact (congrArg (fun x : BitVec 16 => (x.signExtend 63).setWidth 16) (hread _ rfl)).trans
      ((setWidth_signExtend (by decide) _).trans hc)
  | int32 | date => exact (@hread 32 d rfl).trans hc
  | int64 | timestampS | timestampMs | timestampUs | timestampNs | timestampTz =>
    exact (@hread 64 d rfl).trans hc
  | float32 => exact (congrArg F.singleOfBits (hread _ rfl)).trans hc
  | float64 => exact (congrArg F.doubleOfBits (hread _ rfl)).trans hc
  | string | blob => exact (if_pos hvalid).trans hc

end Rows

/-! ### Columns and Bigarrays -/

section Columns

variable {b : Buffer} {s : Scalar} {v : Carrier F s} {a : Bigarray} {i j n pos rows : ℕ}

theorem stageKind_eq (s : Scalar) : stageKind (Scalar.nativeId s) = bulkKind s := by
  cases s <;> rfl

theorem width_of_bulkKind {k : Kind} (h : bulkKind s = some k) :
    typeWidth (Scalar.nativeId s) = Kind.width k ∧ typeWidth (Scalar.nativeId s) ≠ 0 := by
  cases s <;> cases h <;> exact ⟨rfl, by decide⟩

/-- A row with the bytes of an element holds its value. -/
theorem content_of_at (hk : bulkKind s = some a.kind) (hs : s ≠ .bool)
    (hv : element s v = some (a.at F j))
    (hget : ∀ n, typeWidth (Scalar.nativeId s) = n / 8 → 8 ∣ n → b.get n i = a.bits n j) :
    b.content F i s v := by
  obtain ⟨kind, data, dim⟩ := a
  -- an OCaml int of the element has its value, since the element is at most 63 bits wide
  have hsmall : ∀ {n} {x y : BitVec n}, n ≤ 63 →
      Element.int (F := F) (x.signExtend 63) = .int (y.signExtend 63) → y = x := by
    intro n x y hn h
    have h : x.signExtend 63 = y.signExtend 63 := Element.int.inj h
    rw [← setWidth_signExtend hn x, h, setWidth_signExtend hn]
  cases s with
  | bool => exact absurd rfl hs
  | int8 =>
    cases hk
    exact (hget 8 rfl (by decide)).trans (hsmall (by decide) (Option.some.inj hv))
  | int16 =>
    cases hk
    exact (hget 16 rfl (by decide)).trans (hsmall (by decide) (Option.some.inj hv))
  | int32 | date =>
    cases hk
    exact (hget 32 rfl (by decide)).trans (Element.int32.inj (Option.some.inj hv)).symm
  | int64 | timestampS | timestampMs | timestampUs | timestampNs | timestampTz =>
    cases hk
    exact (hget 64 rfl (by decide)).trans (Element.int64.inj (Option.some.inj hv)).symm
  | float32 =>
    cases hk
    -- and a double that was widened has one origin
    have hexact : ∀ {x y : F.single}, F.widen x = F.widen y → y = x := fun {x y} h => by
      rw [← F.narrow_widen x, h, F.narrow_widen]
    exact (congrArg F.singleOfBits (hget 32 rfl (by decide))).trans
      (hexact (Element.float.inj (Option.some.inj hv)))
  | float64 =>
    cases hk
    exact (congrArg F.doubleOfBits (hget 64 rfl (by decide))).trans
      (Element.float.inj (Option.some.inj hv)).symm
  | string | blob => cases hk

/-- An element with the bytes of a row has the value that the row holds. -/
theorem at_of_content (hk : bulkKind s = some a.kind) (hc : b.content F i s v)
    (hget : ∀ n, typeWidth (Scalar.nativeId s) = n / 8 → 8 ∣ n → a.bits n j = b.get n i) :
    element s v = some (a.at F j) := by
  obtain ⟨kind, data, dim⟩ := a
  cases s with
  | bool =>
    cases hk
    have hbool : ∀ v : Bool, b.get 8 i = cond v 1 0 →
        Element.int (F := F) (cond v 1 0) = .int ((b.get 8 i).setWidth 63) := by
      intro v hv
      rw [hv]
      cases v <;> rfl
    exact congrArg some ((hbool v hc).trans
      (congrArg (fun x : BitVec 8 => Element.int (x.setWidth 63)) (hget 8 rfl (by decide)).symm))
  | int8 =>
    cases hk
    exact congrArg (fun x : BitVec 8 => some (Element.int (x.signExtend 63)))
      (((hget 8 rfl (by decide)).trans hc).symm)
  | int16 =>
    cases hk
    exact congrArg (fun x : BitVec 16 => some (Element.int (x.signExtend 63)))
      (((hget 16 rfl (by decide)).trans hc).symm)
  | int32 | date =>
    cases hk
    exact congrArg (fun x : BitVec 32 => some (Element.int32 x))
      (((hget 32 rfl (by decide)).trans hc).symm)
  | int64 | timestampS | timestampMs | timestampUs | timestampNs | timestampTz =>
    cases hk
    exact congrArg (fun x : BitVec 64 => some (Element.int64 x))
      (((hget 64 rfl (by decide)).trans hc).symm)
  | float32 =>
    cases hk
    exact congrArg (fun x : F.single => some (Element.float (F.widen x)))
      (((congrArg F.singleOfBits (hget 32 rfl (by decide))).trans hc).symm)
  | float64 =>
    cases hk
    exact congrArg (fun x : F.double => some (Element.float x))
      (((congrArg F.doubleOfBits (hget 64 rfl (by decide))).trans hc).symm)
  | string | blob => cases hk

/-- A loop that writes each of the first rows. -/
theorem foldl_put (f : ℕ → BitVec 8) (n : ℕ) :
    let b' := (List.range n).foldl (fun b i => b.put i (f i)) b
    b'.type = b.type ∧ b'.validity = b.validity ∧ ∀ i < n, b'.get 8 i = f i := by
  induction n with
  | zero => exact ⟨rfl, rfl, fun i hi => absurd hi (Nat.not_lt_zero i)⟩
  | succ n ih =>
    obtain ⟨ht, hv, hget⟩ := ih
    simp only [List.range_succ, List.foldl_append, List.foldl_cons, List.foldl_nil]
    refine ⟨ht, hv, fun i hi => ?_⟩
    rcases Nat.lt_succ_iff_lt_or_eq.mp hi with hlt | rfl
    · rw [get_put_of_ne (by decide) _ (Nat.ne_of_lt hlt)]
      exact hget i hlt
    · exact get_put (by decide) _

/-- **A column copied from a Bigarray** holds the values of its elements. -/
theorem stageBlit_holds {v : ℕ → Carrier F s} (ht : b.type = Scalar.nativeId s)
    (hk : bulkKind s = some a.kind) (hn : 0 < n) (hrows : n ≤ rows) (hdim : pos + n ≤ a.dim)
    (hv : ∀ i < n, b.valid i = true ∧ element s (v i) = some (a.at F (pos + i))) :
    ∃ b', stageBlit b rows a pos n = some b' ∧ ∀ i < n, Holds b' i ⟨s, v i⟩ := by
  obtain ⟨-, hwidth⟩ := width_of_bulkKind hk
  have hrange : ¬(n = 0 ∨ rows < n ∨ a.dim < pos + n) := by omega
  have hkind : ¬(typeWidth b.type = 0 ∨ stageKind b.type ≠ some a.kind) := by
    rw [ht, stageKind_eq, hk]
    exact fun h => h.elim hwidth fun h => h rfl
  unfold stageBlit
  rw [if_neg hrange, if_neg hkind]
  -- booleans are normalised one by one; all other elements are copied as bytes
  by_cases hbool : b.type = Scalar.nativeId .bool
  · rw [if_pos hbool]
    have hs : s = .bool := by
      rw [ht] at hbool
      cases s <;> first | rfl | cases hbool
    subst hs
    obtain ⟨htype, hvalidity, hget⟩ :=
      @foldl_put b (fun i => if a.bits 8 (pos + i) ≠ 0 then 1#8 else 0#8) n
    refine ⟨_, rfl, fun i hi => ⟨htype.trans ht, (valid_congr hvalidity i).trans (hv i hi).1,
      (hget i hi).trans ?_⟩⟩
    obtain ⟨kind, data, dim⟩ := a
    cases hk
    -- a byte that stands for a boolean is zero or one
    have helement : ∀ v : Bool, Element.int (F := F) (cond v 1 0) =
        .int ((Bigarray.bits ⟨.uint8, data, dim⟩ 8 (pos + i)).setWidth 63) →
        (if Bigarray.bits ⟨.uint8, data, dim⟩ 8 (pos + i) ≠ 0 then 1#8 else 0#8) =
          cond v 1 0 := by
      intro v h
      have h : (cond v 1 0 : BitVec 63) = _ := Element.int.inj h
      generalize Bigarray.bits ⟨.uint8, data, dim⟩ 8 (pos + i) = x at h
      have hx : x = cond v 1 0 := by
        rw [← BitVec.setWidth_eq x, ← BitVec.setWidth_setWidth_of_le x (show 8 ≤ 63 by decide),
          ← h]
        cases v <;> rfl
      rw [hx]
      cases v <;> rfl
    exact helement (v i) (Option.some.inj (hv i hi).2)
  · rw [if_neg hbool]
    refine ⟨_, rfl, fun i hi => ⟨ht, (hv i hi).1, content_of_at hk ?_ (hv i hi).2 ?_⟩⟩
    · rintro rfl
      exact hbool ht
    · intro m hw hm
      have hw : typeWidth b.type = m / 8 := ht ▸ hw
      have hend : m / 8 * i + m / 8 ≤ n * (m / 8) := by
        rw [Nat.mul_comm, ← Nat.succ_mul]
        exact Nat.mul_le_mul_right _ hi
      -- an element of the copy is the element at the same place of the Bigarray
      have hcopy := @Bytes.load_copy m b.data a.data 0 (pos * (m / 8)) (n * (m / 8)) (m / 8 * i)
        hm hend
      rw [Nat.zero_add] at hcopy
      rw [Buffer.get, Bigarray.bits, Nat.mul_add, Nat.mul_comm (m / 8) pos, ← hcopy]
      dsimp only
      rw [hw]

/-- The zeros for NULL rows are not in the bytes of other rows. -/
theorem load_cleared {valid : ℕ → Bool} (hn : 8 ∣ n) (hi : valid i = true) (m : Bytes.Memory)
    (rows : List ℕ) :
    Bytes.load n (rows.foldl (fun m i => if valid i then m
      else Bytes.fill m (pos + i * (n / 8)) (n / 8) 0) m) (pos + i * (n / 8)) =
        Bytes.load n m (pos + i * (n / 8)) := by
  induction rows generalizing m with
  | nil => rfl
  | cons j rows ih =>
    rw [List.foldl_cons, ih]
    cases hj : valid j with
    | true => rw [if_pos rfl]
    | false =>
      rw [if_neg Bool.false_ne_true]
      have hne : i ≠ j := fun h => by rw [h, hj] at hi; cases hi
      refine Bytes.load_fill_of_disjoint hn ?_
      have hrow : ∀ {k l : ℕ}, k < l → k * (n / 8) + n / 8 ≤ l * (n / 8) := fun {k l} h => by
        rw [← Nat.succ_mul]
        exact Nat.mul_le_mul_right _ h
      rcases Nat.lt_or_gt_of_ne hne with hlt | hlt
      · exact .inl (by have := hrow hlt; omega)
      · exact .inr (by have := hrow hlt; omega)

/-- **A row copied to a Bigarray** is the element of what it holds. -/
theorem viewBlit_at {length : ℕ} (h : Holds b i ⟨s, v⟩) (hk : bulkKind s = some a.kind)
    (hrows : length ≤ rows) (hdim : pos + length ≤ a.dim) (hi : i < length) :
    element s v = some ((viewBlit b rows length a pos).at F (pos + i)) := by
  obtain ⟨hwidth, hpos⟩ := width_of_bulkKind hk
  have hsize : a.elementSize = typeWidth b.type := by
    rw [Bigarray.elementSize, if_neg (by omega), h.type, hwidth]
  -- the range fits, and the elements have the same width
  have hfits : ¬(rows < length ∨ typeWidth b.type = 0 ∨ typeWidth b.type ≠ a.elementSize ∨
      a.dim < pos + length) := by
    rw [hsize, h.type]
    rintro (h | h | h | h)
    · omega
    · exact hpos h
    · exact h rfl
    · omega
  refine at_of_content (b := b) (i := i) ?_ h.content fun n hw hn => ?_
  · rw [viewBlit, if_neg hfits]
    exact hk
  · have hw : typeWidth b.type = n / 8 := h.type ▸ hw
    have hend : i * (n / 8) + n / 8 ≤ length * (n / 8) := by
      rw [← Nat.succ_mul]
      exact Nat.mul_le_mul_right _ hi
    -- the bytes are those of the row, which is not one of the NULLs cleared after the copy
    have hcopy := @Bytes.load_copy n a.data b.data (pos * (n / 8)) 0 (length * (n / 8))
      (i * (n / 8)) hn hend
    have hclear := @load_cleared i n (pos * (n / 8)) b.valid hn h.valid
      (Bytes.copy a.data b.data (pos * (n / 8)) 0 (length * (n / 8))) (List.range length)
    rw [viewBlit, if_neg hfits, Bigarray.bits, Buffer.get, hw, Nat.mul_add, Nat.mul_comm _ pos,
      Nat.mul_comm _ i, hclear, hcopy, Nat.zero_add]

end Columns

/-! ### Every scalar crosses -/

/-- **A value crosses**: every writer makes the same value of the engine, and every reader of a row
that holds it has the value back. -/
structure Crosses (B : Bits F) (G : Engine) (s : Scalar) (v : Carrier F s) : Prop where
  bound : bindValue G s v = some ⟨s, v⟩
  staged : ∀ b row, b.type = Scalar.nativeId s → b.valid row = true →
    ∃ b', stageBase B G b row s v = some b' ∧ Wrote b b' row ⟨s, v⟩
  copiedIn : ∀ b rows (a : Bigarray) pos n (vs : ℕ → Carrier F s), b.type = Scalar.nativeId s →
    bulkKind s = some a.kind → n ≤ rows → pos + n ≤ a.dim →
    (∀ i < n, b.valid i = true ∧ element s (vs i) = some (a.at F (pos + i))) →
    ∀ i < n, vs i = v → ∃ b', stageBlit b rows a pos n = some b' ∧ Holds b' i ⟨s, v⟩
  cell : ∀ b rows row, Holds b row ⟨s, v⟩ → row < rows →
    read b row s = v ∧ base b rows row s = v ∧ columnValue b rows row s = some v ∧
      ∀ d, columnOr b rows row B s d = some v
  copiedOut : ∀ b rows length (a : Bigarray) pos i, Holds b i ⟨s, v⟩ → bulkKind s = some a.kind →
    length ≤ rows → pos + length ≤ a.dim → i < length →
    element s v = some ((viewBlit b rows length a pos).at F (pos + i))

/-- **Every value of every scalar crosses.** -/
theorem crosses (B : Bits F) (G : Engine) {s : Scalar} {v : Carrier F s} (hv : Accepted G s v) :
    Crosses B G s v where
  bound := bindValue_eq G hv
  staged _ _ := stageBase_wrote B G hv
  copiedIn b rows a pos n vs ht hk hrows hdim hvs i hi hvi := by
    obtain ⟨b', hb', hholds⟩ := stageBlit_holds ht hk (by omega) hrows hdim hvs
    exact ⟨b', hb', hvi ▸ hholds i hi⟩
  cell b rows row h hr := by
    refine ⟨read_eq h, base_eq h hr, ?_, fun d => ?_⟩
    · rw [columnValue, if_pos hr, base_eq h hr]
    · rw [columnOr, if_pos hr, orDefault_eq h hr]
  copiedOut _ _ _ _ _ _ h hk hrows hdim hi := viewBlit_at h hk hrows hdim hi

section Chunks

variable {b : Buffer} {s : Scalar} {k : Chunk} {c row : ℕ}

/-- The cells of a chunk that rows are decoded from. -/
theorem read_vector (hk : k.vectors[c]? = some b.vector) (ht : b.type = Scalar.nativeId s) :
    k.read F c row s = read b row s := by
  have hint : typeWidth (Scalar.nativeId s) ≠ 0 → s ≠ .float32 →
      k.int64 c row = chunkInt64 b row := chunkInt64_eq hk ht
  -- the low bits of the element are the bytes of the row
  have helement : ∀ n, typeWidth (Scalar.nativeId s) = n / 8 → 8 ∣ n → n ≤ 64 →
      (b.vector.element row).setWidth n = b.get n row := fun n hw => vector_element (ht ▸ hw)
  have hfloat : k.float F c row = if b.type = Scalar.nativeId .float32
      then F.widen (F.singleOfBits ((b.vector.element row).setWidth 32))
      else F.doubleOfBits (b.vector.element row) := by
    rw [Chunk.float, hk, Option.elim_some]
    rfl
  have htext : k.string c row = b.text row := by
    rw [Chunk.string, hk, Option.elim_some]
    rfl
  cases s with
  | bool => exact congrArg (fun x : BitVec 64 => decide (x ≠ 0)) (hint (by decide) (by decide))
  | int8 =>
    exact congrArg (fun x : BitVec 64 => (x.setWidth 63).setWidth 8)
      (hint (by decide) (by decide))
  | int16 =>
    exact congrArg (fun x : BitVec 64 => (x.setWidth 63).setWidth 16)
      (hint (by decide) (by decide))
  | int32 | date =>
    exact congrArg (fun x : BitVec 64 => x.setWidth 32) (hint (by decide) (by decide))
  | int64 | timestampS | timestampMs | timestampUs | timestampNs | timestampTz =>
    exact hint (by decide) (by decide)
  | float32 =>
    refine congrArg F.narrow (hfloat.trans ?_)
    rw [chunkFloat, if_pos ht, if_pos ht, helement 32 rfl (by decide) (by decide)]
  | float64 =>
    refine hfloat.trans ?_
    have helement := helement 64 rfl (by decide) (by decide)
    rw [BitVec.setWidth_eq] at helement
    change _ = chunkFloat b F row
    rw [chunkFloat, ht, if_neg (by decide), if_neg (by decide), helement]
  | string | blob => exact htext

/-- The cells for the fast decoder. -/
theorem base_vector (hk : k.vectors[c]? = some b.vector) :
    Decode.base k F c row s = base b k.rows row s := by
  have hbits : ∀ n, 8 ∣ n → n ≤ 64 → k.viewBits n c row = viewRead b n k.rows row :=
    fun n => viewRead_eq hk
  have htext : k.string c row = b.text row := by
    rw [Chunk.string, hk, Option.elim_some]
    rfl
  cases s with
  | bool => exact congrArg (fun x : BitVec 8 => decide (x ≠ 0)) (hbits 8 (by decide) (by decide))
  | int8 =>
    exact congrArg (fun x : BitVec 8 => (x.signExtend 63).setWidth 8)
      (hbits 8 (by decide) (by decide))
  | int16 =>
    exact congrArg (fun x : BitVec 16 => (x.signExtend 63).setWidth 16)
      (hbits 16 (by decide) (by decide))
  | int32 | date => exact hbits 32 (by decide) (by decide)
  | int64 | timestampS | timestampMs | timestampUs | timestampNs | timestampTz =>
    exact hbits 64 (by decide) (by decide)
  | float32 => exact congrArg F.singleOfBits (hbits 32 (by decide) (by decide))
  | float64 => exact congrArg F.doubleOfBits (hbits 64 (by decide) (by decide))
  | string | blob => exact htext

end Chunks

end DuckdbMl.Crossing
