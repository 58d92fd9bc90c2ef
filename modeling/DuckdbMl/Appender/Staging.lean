import DuckdbMl.Decode.Row

/-!
# Staging

Rows for an appender are written into a pool of the engine's data chunks, which grows for a large
batch, shrinks after it and is used again for the next. Every write is bounded by the rows staged.

## Main definitions

* `Ty`, `Datum`, `Vector`, `Owner`: the values, the vectors of a chunk, and the native appender
* `stageBegin`, `stageInt64`, `stageFloat`, `stageString`, `stageNull`: rows, cell by cell
* `stageBlit`, `stageMask`: a column, element by element
* `appendStaged`: the staged chunks go to the engine
-/

namespace DuckdbMl.Appender

open DuckdbMl.Decode (Floats scalars Scalar.nativeId)
open DuckdbMl.Sql (Scalar)

/-! ### Values -/

/-- The OCaml types of cells. -/
inductive Ty : Type 1
  | bool
  | int8
  | int16
  | int32
  | int64
  | float32
  | float64
  | bytes
  | option (t : Ty)
  | other (α : Type)

def Ty.Value (F : Floats) : Ty → Type
  | .bool => Bool
  | .int8 => BitVec 8
  | .int16 => BitVec 16
  | .int32 => BitVec 32
  | .int64 => BitVec 64
  | .float32 => F.single
  | .float64 => F.double
  | .bytes => List UInt8
  | .option t => Option (t.Value F)
  | .other α => α

def Ty.ofScalar : Scalar → Ty
  | .bool => .bool
  | .int8 => .int8
  | .int16 => .int16
  | .int32 | .date => .int32
  | .int64 | .timestampS | .timestampMs | .timestampUs | .timestampNs | .timestampTz => .int64
  | .float32 => .float32
  | .float64 => .float64
  | .string | .blob => .bytes

/-- The scalar of an engine type. -/
def ofId (t : ℕ) : Option Scalar := scalars.find? (Scalar.nativeId · = t)

theorem ofId_nativeId (s : Scalar) : ofId (Scalar.nativeId s) = some s := by
  cases s <;> rfl

variable {F : Floats}

/-- A value of a scalar, as a vector holds it. -/
structure Datum (F : Floats) where
  scalar : Scalar
  value : (Ty.ofScalar scalar).Value F

/-- A vector of a chunk: its data, and which rows are not NULL. -/
structure Vector (F : Floats) where
  data : ℕ → Datum F
  valid : ℕ → Bool

/-- What the engine reads in a row, `none` for NULL. -/
def Vector.cell (v : Vector F) (i : ℕ) : Option (Datum F) :=
  if v.valid i then some (v.data i) else none

def Vector.fresh : Vector F := ⟨fun _ => ⟨.bool, false⟩, fun _ => true⟩

def Vector.put (v : Vector F) (i : ℕ) (d : Datum F) : Vector F :=
  { v with data := Function.update v.data i d }

def Vector.setRowInvalid (v : Vector F) (i : ℕ) : Vector F :=
  { v with valid := Function.update v.valid i false }

/-- The engine: the rows of a vector, and the diagnostic for text that is not valid UTF-8. -/
structure Engine where
  size : ℕ
  size_pos : 0 < size
  invalid : List UInt8 → Option String

/-- The chunks for a number of rows. -/
def Engine.chunks (E : Engine) (rows : ℕ) : ℕ := (rows + E.size - 1) / E.size

/-- Rows in chunks of the engine. -/
def Engine.batches {α : Type} (E : Engine) (rows : List α) : List (List α) :=
  (List.range (E.chunks rows.length)).map fun k => (rows.drop (k * E.size)).take E.size

/-- The native appender: the columns of the table and the positions of the active ones, the types of
these and whether they may be NULL, the staging pool, how many rows are staged, why staging failed,
and the chunks that the engine has accepted. An access outside of the pool leaves its mark in
`wild`. -/
structure Owner (F : Floats) where
  closed : Bool
  status : Option Cause
  catalog : List String
  active : List ℕ
  types : List ℕ
  nullable : List Bool
  staged : List (List (Vector F))
  stagedRows : ℕ
  stageFailed : Option String
  received : List (List (List (Option (Datum F))))
  wild : Bool

/-- The answer of the engine to a chunk, or to another user call. -/
inductive Answer
  | accepted
  | failed (message : String)
  | suppressed

/-- The chunks delivered, up to the first failure. -/
def deliver {α : Type} (answer : ℕ → Answer) : ℕ → List α → List α × Option Cause
  | _, [] => ([], none)
  | k, b :: bs =>
    match answer k with
    | .suppressed => ([], some .cancelled)
    | .failed message => ([], some (.native message))
    | .accepted => ((deliver answer (k + 1) bs).map (b :: ·) id)

/-- Which allocations a batch is granted. -/
structure Grant where
  types : Bool
  array : Bool
  chunks : ℕ

/-- The chunks that the pool keeps between batches. -/
def stagedRetained : ℕ := 16

/-- The text that C reads of a string: it ends at the first NUL. -/
def cString (s : String) : String := String.ofList (s.toList.takeWhile (· ≠ Char.ofNat 0))

namespace Owner

variable (E : Engine) (p : Owner F)

/-- The first error is kept. -/
def error (message : String) : Owner F :=
  if p.status.isSome then p else { p with status := some (.native message) }

def clearInput : Owner F := { p with stagedRows := 0, stageFailed := none }

def vector (k c : ℕ) : Option (Vector F) := p.staged[k]?.bind (·[c]?)

/-- An access to the vector of a chunk. -/
def onVector (k c : ℕ) (f : Vector F → Vector F) : Owner F :=
  match p.staged[k]? with
  | none => { p with wild := true }
  | some chunk =>
    match chunk[c]? with
    | none => { p with wild := true }
    | some v => { p with staged := p.staged.set k (chunk.set c (f v)) }

/-! ### The pool -/

/-- The text of a slot that no string has been written to. -/
def emptyText (t : ℕ) : Option (Datum F) :=
  match ofId t with
  | some .string => some ⟨.string, []⟩
  | some .blob => some ⟨.blob, []⟩
  | _ => none

/-- A chunk is used again: no row is NULL, and the strings of the rows held are empty. -/
def reset (types : List ℕ) (held : ℕ) (chunk : List (Vector F)) : List (Vector F) :=
  List.zipWith (fun t v =>
    { data := fun i => if i < held then (emptyText t).getD (v.data i) else v.data i
      valid := fun _ => true }) types chunk

def resetAll (rows : ℕ) : Owner F :=
  if p.staged.length < E.chunks rows then { p with wild := true }
  else
    { p with
      staged := p.staged.mapIdx fun k chunk =>
        if k < E.chunks rows then reset p.types (min (rows - k * E.size) E.size) chunk else chunk
      stagedRows := rows }

/-- The pool with more chunks, all empty. -/
def grow (n : ℕ) : Owner F :=
  { p with staged := p.staged ++ List.replicate n (p.types.map fun _ => Vector.fresh) }

/-- `stage_begin`. -/
def stageBegin (grant : Grant) (rows : ℕ) : Owner F :=
  let p := p.clearInput
  if p.closed || p.status.isSome then p
  else if !grant.types && !p.types.isEmpty then p.error "Cannot allocate staging types"
  else if p.staged.length < E.chunks rows then
    if !grant.array then p.error "Cannot allocate staging chunks"
    else
      let missing := E.chunks rows - p.staged.length
      let p := p.grow (min grant.chunks missing)
      if grant.chunks < missing then p.error "Cannot allocate staging chunks"
      else p.resetAll E rows
  else p.resetAll E rows

def checkIndices (indices : List ℕ) : Owner F :=
  if indices.all (· < p.types.length) then p
  else p.error "Declared column index outside the catalog"

/-- The active columns become `names`, which are at `indices`, unless the engine refuses them, and
the staging that was built from the columns before goes. -/
def selectColumns (names : List String) (indices : List ℕ) (refused : Option Cause) : Owner F :=
  let p := p.checkIndices indices
  let p := { p with staged := [], stagedRows := 0, status := p.status.or refused }
  if p.status.isSome then p
  else
    { p with
      active := names.map fun name => p.catalog.idxOf (cString name)
      types := indices.map fun i => p.types[i]?.getD Decode.invalid
      nullable := indices.map fun i => p.nullable[i]?.getD false }

def close : Owner F := { p.clearInput with closed := true, staged := [] }

/-! ### Cell by cell -/

/-- A cell that is staged. -/
def slot (column row : ℕ) : Bool := !p.closed && column < p.types.length && row < p.stagedRows

def write (column row : ℕ) (f : Vector F → ℕ → Vector F) : Owner F :=
  if p.slot column row then p.onVector (row / E.size) column fun v => f v (row % E.size) else p

/-- The datum that a column of a type stores for an integer. -/
def intDatum (t : ℕ) (x : BitVec 64) : Option (Datum F) :=
  match ofId t with
  | some .bool => some ⟨.bool, decide (x ≠ 0)⟩
  | some .int8 => some ⟨.int8, x.setWidth 8⟩
  | some .int16 => some ⟨.int16, x.setWidth 16⟩
  | some .int32 => some ⟨.int32, x.setWidth 32⟩
  | some .date => some ⟨.date, x.setWidth 32⟩
  | some .int64 => some ⟨.int64, x⟩
  | some .timestampUs => some ⟨.timestampUs, x⟩
  | some .timestampS => some ⟨.timestampS, x⟩
  | some .timestampMs => some ⟨.timestampMs, x⟩
  | some .timestampNs => some ⟨.timestampNs, x⟩
  | some .timestampTz => some ⟨.timestampTz, x⟩
  | _ => none

def floatDatum (t : ℕ) (x : F.double) : Option (Datum F) :=
  match ofId t with
  | some .float32 => some ⟨.float32, F.narrow x⟩
  | some .float64 => some ⟨.float64, x⟩
  | _ => none

/-- A column of another type is left as it is. -/
def putDatum (datum : Option (Datum F)) (v : Vector F) (i : ℕ) : Vector F :=
  match datum with
  | some d => v.put i d
  | none => v

def typeOf (column : ℕ) : ℕ := p.types[column]?.getD Decode.invalid

def stageInt64 (column row : ℕ) (x : BitVec 64) : Owner F :=
  p.write E column row (putDatum (intDatum (p.typeOf column) x))

def stageFloat (column row : ℕ) (x : F.double) : Owner F :=
  p.write E column row (putDatum (floatDatum (p.typeOf column) x))

/-- Text that is not valid UTF-8 fails the whole batch. -/
def stageString (column row : ℕ) (bytes : List UInt8) : Owner F :=
  if !p.slot column row then p
  else if p.typeOf column = Scalar.nativeId .string then
    match E.invalid bytes with
    | some message => { p with stagedRows := 0, stageFailed := some message }
    | none => p.write E column row (putDatum (some ⟨.string, bytes⟩))
  else if p.typeOf column = Scalar.nativeId .blob then
    p.write E column row (putDatum (some ⟨.blob, bytes⟩))
  else p

def stageNull (column row : ℕ) : Owner F := p.write E column row Vector.setRowInvalid

/-! ### Column by column -/

/-- The kinds of the elements of a Bigarray. -/
inductive Kind
  | uint8
  | sint8
  | sint16
  | int32
  | int64
  | float32
  | float64
  deriving DecidableEq

def Kind.Element (F : Floats) : Kind → Type
  | .uint8 => BitVec 8
  | .sint8 => BitVec 8
  | .sint16 => BitVec 16
  | .int32 => BitVec 32
  | .int64 => BitVec 64
  | .float32 => F.single
  | .float64 => F.double

structure Bigarray (F : Floats) where
  kind : Kind
  data : List (kind.Element F)

/-- The kind of the physical values of a column. -/
def stageKind (t : ℕ) : Option Kind :=
  match ofId t with
  | some .bool => some .uint8
  | some .int8 => some .sint8
  | some .int16 => some .sint16
  | some .int32 | some .date => some .int32
  | some .float32 => some .float32
  | some .float64 => some .float64
  | some .int64 | some .timestampUs | some .timestampS | some .timestampMs | some .timestampNs
  | some .timestampTz => some .int64
  | _ => none

def nonzero {w : ℕ} (x : BitVec w) : Bool := decide (x ≠ 0)

/-- The datum of an element that is copied. Booleans are normalized. -/
def elementDatum (t : ℕ) : (k : Kind) → k.Element F → Option (Datum F)
  | .uint8, x => if ofId t = some .bool then some ⟨.bool, nonzero (w := 8) x⟩ else none
  | .sint8, x => if ofId t = some .int8 then some ⟨.int8, x⟩ else none
  | .sint16, x => if ofId t = some .int16 then some ⟨.int16, x⟩ else none
  | .int32, x =>
    match ofId t with
    | some .int32 => some ⟨.int32, x⟩
    | some .date => some ⟨.date, x⟩
    | _ => none
  | .int64, x =>
    match ofId t with
    | some .int64 => some ⟨.int64, x⟩
    | some .timestampUs => some ⟨.timestampUs, x⟩
    | some .timestampS => some ⟨.timestampS, x⟩
    | some .timestampMs => some ⟨.timestampMs, x⟩
    | some .timestampNs => some ⟨.timestampNs, x⟩
    | some .timestampTz => some ⟨.timestampTz, x⟩
    | _ => none
  | .float32, x => if ofId t = some .float32 then some ⟨.float32, x⟩ else none
  | .float64, x => if ofId t = some .float64 then some ⟨.float64, x⟩ else none

/-- Whether the rows staged, in one chunk, can take the elements `[at, at + n)` of `length`. -/
def stageRange (column length pos n : ℕ) : Bool :=
  !p.closed && !p.staged.isEmpty && column < p.types.length && 0 < n && n ≤ p.stagedRows &&
    n ≤ E.size && pos + n ≤ length

/-- A columnar write that cannot be honoured fails the batch. The first failure is kept. -/
def stageFail (message : String) : Owner F :=
  if p.stageFailed.isSome then p else { p with stagedRows := 0, stageFailed := some message }

def stageBlit (column : ℕ) (ba : Bigarray F) (pos n : ℕ) : Owner F :=
  if !p.stageRange E column ba.data.length pos n then p.stageFail "Bulk column range mismatch"
  else if stageKind (p.typeOf column) ≠ some ba.kind then p.stageFail "Bulk column kind mismatch"
  else
    let t := p.typeOf column
    p.onVector 0 column fun v =>
      { v with
        data := fun i =>
          if i < n then (ba.data[pos + i]?.bind (elementDatum t ba.kind)).getD (v.data i)
          else v.data i }

/-- The mask is made of bytes; zero means NULL. -/
def stageMask (column : ℕ) (mask : List (BitVec 8)) (pos n : ℕ) : Owner F :=
  if !p.stageRange E column mask.length pos n then p.stageFail "Bulk mask kind or range mismatch"
  else
    p.onVector 0 column fun v =>
      { v with valid := fun i => if i < n ∧ mask[pos + i]? = some 0 then false else v.valid i }

/-! ### To the engine -/

/-- The first rows of a chunk. -/
def rowsOf (chunk : List (Vector F)) (n : ℕ) : List (List (Option (Datum F))) :=
  (List.range n).map fun i => chunk.map (·.cell i)

/-- The chunks from `k` on, `n` of them, until one fails. -/
def send (answer : ℕ → Answer) (rows k : ℕ) : ℕ → Owner F → Owner F
  | 0, p => p
  | n + 1, p =>
    if p.status.isSome then p
    else match answer k with
      | .suppressed => { p with status := some .cancelled }
      | .failed message => p.error message
      | .accepted =>
        match p.staged[k]? with
        | none => { p with wild := true }
        | some chunk =>
          let held := if n = 0 then rows - k * E.size else E.size
          send answer rows (k + 1) n { p with received := p.received ++ [rowsOf chunk held] }

/-- `append_staged`. -/
def appendStaged (answer : ℕ → Answer) : Owner F :=
  if p.closed then (p.error "Appender is closed").clearInput
  else
    match p.stageFailed with
    | some message => (p.error message).clearInput
    | none =>
      let p := (send E answer p.stagedRows 0 (E.chunks p.stagedRows) p).clearInput
      { p with staged := p.staged.take stagedRetained }

end Owner

end DuckdbMl.Appender
