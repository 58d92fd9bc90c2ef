import DuckdbMl.Appender.Basic

/-!
# Rows to append

Rows are encoded and staged value by value, before anything is admitted. A custom encoder that
rejects a value rejects the whole batch; a NULL that the catalog forbids is remembered.

## Main definitions

* `Codec`, `Fields`, `Args`, `Table`: a declared table and the values of a row
* `append`: a batch of rows
* `encodeRows`: the cells of the rows, or what stops their encoding
* `firstNull`, `firstInvalid`: the first forbidden NULL, and the first text that is not valid
* `appended`: a batch as the engine sees it

## Main results

* `appendRows_eq`: `append` is `appended`
-/

namespace DuckdbMl.Appender

open Effects
open DuckdbMl.Decode (Floats Scalar.nativeId)
open DuckdbMl.Sql (Scalar)

/-- What an encoder makes of a value. -/
inductive Encoded (E β : Type)
  | ok (b : β)
  | error (reason : Reason)
  | raised (e : Exn E)

inductive Plan (F : Floats) (E : Type) : Ty → Type 1
  | identity {t : Ty} (s : Scalar) (h : Ty.ofScalar s = t) : Plan F E t
  | plan {t : Ty} (s : Scalar) (encode : t.Value F → Encoded E ((Ty.ofScalar s).Value F)) : Plan F E t

inductive Codec (F : Floats) (E : Type) : Ty → Type 1
  | nonNull {t : Ty} (plan : Plan F E t) : Codec F E t
  | nullable {t : Ty} (plan : Plan F E t) : Codec F E (.option t)

/-- The codecs of the columns. -/
inductive Fields (F : Floats) (E : Type) : List Ty → Type 1
  | nil : Fields F E []
  | cons {t : Ty} {ts : List Ty} (codec : Codec F E t) (rest : Fields F E ts) : Fields F E (t :: ts)

/-- The values of a row. -/
inductive Args (F : Floats) : List Ty → Type 1
  | nil : Args F []
  | cons {t : Ty} {ts : List Ty} (value : t.Value F) (rest : Args F ts) : Args F (t :: ts)

variable {F : Floats} {E : Type}

def Plan.scalar {t : Ty} : Plan F E t → Scalar
  | .identity s _ => s
  | .plan s _ => s

def Codec.scalar {t : Ty} : Codec F E t → Scalar
  | .nonNull plan => plan.scalar
  | .nullable plan => plan.scalar

/-- `scalar_ids`. -/
def Fields.ids : {ts : List Ty} → Fields F E ts → List ℕ
  | _, .nil => []
  | _, .cons codec rest => Scalar.nativeId codec.scalar :: rest.ids

/-- A declared table. -/
structure Table (F : Floats) (E : Type) where
  schema : String
  name : String
  names : List String
  ts : List Ty
  fields : Fields F E ts

def Table.context (t : Table F E) : Context := .table t.schema t.name

/-- What stops the staging of a batch. -/
inductive Halt (E : Type)
  | rejected (index : ℕ) (reason : Reason)
  | raised (e : Exn E)

section Definitions

variable (G : Engine)

/-- A value crosses the boundary as an integer of 64 bits, a double or bytes. An OCaml `int` has 63
bits. -/
def Owner.stageBase (p : Owner F) (column row : ℕ) :
    (s : Scalar) → (Ty.ofScalar s).Value F → Owner F
  | .int64, x => p.stageInt64 G column row x
  | .timestampS, x => p.stageInt64 G column row x
  | .timestampMs, x => p.stageInt64 G column row x
  | .timestampUs, x => p.stageInt64 G column row x
  | .timestampNs, x => p.stageInt64 G column row x
  | .timestampTz, x => p.stageInt64 G column row x
  | .int32, x => p.stageInt64 G column row (BitVec.signExtend (w := 32) 64 x)
  | .date, x => p.stageInt64 G column row (BitVec.signExtend (w := 32) 64 x)
  | .int16, x => p.stageInt64 G column row ((BitVec.signExtend (w := 16) 63 x).signExtend 64)
  | .int8, x => p.stageInt64 G column row ((BitVec.signExtend (w := 8) 63 x).signExtend 64)
  | .bool, x => p.stageInt64 G column row (cond x 1 0)
  | .float64, x => p.stageFloat G column row x
  | .float32, x => p.stageFloat G column row (F.widen x)
  | .string, x => p.stageString G column row x
  | .blob, x => p.stageString G column row x

def stagePlan {t : Ty} (plan : Plan F E t) (column row index : ℕ) (value : t.Value F) :
    Comp (Owner F) (Halt E) Unit :=
  match plan with
  | .identity s h => Comp.modify fun p => p.stageBase G column row s (h ▸ value)
  | .plan s encode =>
    match encode value with
    | .ok b => Comp.modify fun p => p.stageBase G column row s b
    | .error reason => Comp.raise (.rejected index reason)
    | .raised e => Comp.raise (.raised e)

/-- One value. The column is returned when it is a NULL that the catalog forbids. -/
def stageValue (nullable : ℕ → Bool) {t : Ty} (codec : Codec F E t) (column row : ℕ)
    (value : t.Value F) : Comp (Owner F) (Halt E) (Option ℕ) :=
  match codec with
  | .nonNull plan => do
    stagePlan G plan column row (column + 1) value
    return none
  | .nullable plan =>
    match (value : Option _) with
    | none => do
      Comp.modify fun p => p.stageNull G column row
      return if nullable column then none else some column
    | some value => do
      stagePlan G plan column row (column + 1) value
      return none

/-- Encoding continues past a forbidden NULL, so that a later rejection still wins. -/
def stageRow (nullable : ℕ → Bool) : {ts : List Ty} → Fields F E ts → Args F ts → ℕ → ℕ →
    Comp (Owner F) (Halt E) (Option ℕ)
  | _, .nil, .nil, _, _ => return none
  | _, .cons codec fields, .cons value args, column, row => do
    let here ← stageValue G nullable codec column row value
    let rest ← stageRow nullable fields args (column + 1) row
    return here.or rest

def stageRows (nullable : ℕ → Bool) {ts : List Ty} (fields : Fields F E ts) :
    List (Args F ts) → ℕ → Option (ℕ × ℕ) → Comp (Owner F) (Halt E) (Option (ℕ × ℕ))
  | [], _, first => return first
  | args :: rows, row, first => do
    let here ← stageRow G nullable fields args 0 row
    stageRows nullable fields rows (row + 1) (first.or (here.map (·, row)))

/-- Whether a column may be NULL. -/
def App.mayBeNull (a : App F) (column : ℕ) : Bool := a.nullable[column]?.getD false

def appendRows (amb : Ambient E) {ts : List Ty} (fields : Fields F E ts) (rows : List (Args F ts)) :
    Op F E Result := fun s =>
  match stageRows G s.app.mayBeNull fields rows 0 none
      (s.app.native.stageBegin G (amb.grant 0) rows.length) with
  | (.error (.rejected index reason), p) =>
    (.ok (.error (.encodeRejected index reason)), s.onNative fun _ => p.clearInput)
  | (.error (.raised e), p) => (.error e, s.onNative fun _ => p.clearInput)
  | (.ok null, p) => appendStaged G amb null (s.onNative fun _ => p)

def inTable (t : Table F E) (work : Op F E Result) : Op F E (Except Failure Unit) := do
  let r ← work
  return within t.context r

/-- `Table.append`. -/
def append (amb : Ambient E) (t : Table F E) (rows : List (Args F t.ts)) :
    Op F E (Except Failure Unit) :=
  inTable t (appendRows G amb t.fields rows)

/-! ### The rows as the engine sees them -/

def encodePlan {t : Ty} (plan : Plan F E t) (index : ℕ) (value : t.Value F) :
    Except (Halt E) (Datum F) :=
  match plan with
  | .identity s h => .ok ⟨s, h ▸ value⟩
  | .plan s encode =>
    match encode value with
    | .ok b => .ok ⟨s, b⟩
    | .error reason => .error (.rejected index reason)
    | .raised e => .error (.raised e)

def encodeValue {t : Ty} (codec : Codec F E t) (index : ℕ) (value : t.Value F) :
    Except (Halt E) (Option (Datum F)) :=
  match codec with
  | .nonNull plan => some <$> encodePlan plan index value
  | .nullable plan =>
    match (value : Option _) with
    | none => .ok none
    | some value => some <$> encodePlan plan index value

def encodeRow : {ts : List Ty} → Fields F E ts → Args F ts → ℕ →
    Except (Halt E) (List (Option (Datum F)))
  | _, .nil, .nil, _ => .ok []
  | _, .cons codec fields, .cons value args, column => do
    let x ← encodeValue codec (column + 1) value
    let xs ← encodeRow fields args (column + 1)
    return x :: xs

/-- The cells of the rows, or the row-major first value that has none. -/
def encodeRows {ts : List Ty} (fields : Fields F E ts) :
    List (Args F ts) → Except (Halt E) (List (List (Option (Datum F))))
  | [] => .ok []
  | args :: rows => do
    let cells ← encodeRow fields args 0
    let rest ← encodeRows fields rows
    return cells :: rest

/-- The first NULL of a row that is forbidden. -/
def rowNull (nullable : ℕ → Bool) : List (Option (Datum F)) → ℕ → Option ℕ
  | [], _ => none
  | none :: xs, column =>
    if nullable column then rowNull nullable xs (column + 1) else some column
  | some _ :: xs, column => rowNull nullable xs (column + 1)

/-- The row-major first NULL that is forbidden, its column and its row. -/
def firstNull (nullable : ℕ → Bool) : List (List (Option (Datum F))) → ℕ → Option (ℕ × ℕ)
  | [], _ => none
  | cells :: rest, row =>
    ((rowNull nullable cells 0).map (·, row)).or (firstNull nullable rest (row + 1))

/-- The diagnostic for text that is not valid. -/
def Datum.invalid : Datum F → Option String
  | ⟨.string, bytes⟩ => G.invalid bytes
  | _ => none

def rowInvalid (cells : List (Option (Datum F))) : Option String :=
  cells.findSome? (·.bind (Datum.invalid G))

/-- The row-major first text that is not valid. -/
def firstInvalid (cells : List (List (Option (Datum F)))) : Option String :=
  cells.findSome? (rowInvalid G)

/-- An allocation that fails is kept, unless there is a failure already. -/
def Owner.begun (grant : Grant) (rows : ℕ) (p : Owner F) : Owner F :=
  if p.closed then p else { p with status := p.status.or ((p.shortage G grant rows).map .native) }

/-- A batch at the engine: nothing after a failure, nothing when some text is not valid, and else
the chunks up to the first failure. -/
def Owner.takes (answer : ℕ → Answer) (cells : List (List (Option (Datum F)))) (p : Owner F) :
    Owner F :=
  if p.status.isSome then p
  else match firstInvalid G cells with
    | some message => { p with status := some (.native message) }
    | none =>
      { p with
        received := p.received ++ (deliver answer 0 (G.batches cells)).1
        status := (deliver answer 0 (G.batches cells)).2 }

/-- The end of a batch that went to the engine. -/
def concluded (amb : Ambient E) : Op F E Result := fun s =>
  match amb.interrupt 0 with
  | some e => (.error e, (poison (E := E) interrupted s).2)
  | none =>
    match s.app.native.status with
    | some c => poison c s
    | none => orPoison amb.after s

/-- **A batch of rows**, in the order of what may become of it. -/
def appended (amb : Ambient E) {ts : List Ty} (fields : Fields F E ts) (rows : List (Args F ts)) :
    Op F E Result := fun s =>
  let begun := s.onNative (Owner.begun G (amb.grant 0) rows.length)
  match encodeRows fields rows with
  | .error (.rejected index reason) => (.ok (.error (.encodeRejected index reason)), begun)
  | .error (.raised e) => (.error e, begun)
  | .ok cells =>
    match admission amb s with
    | .error c => (.ok (.error c), begun)
    | .ok () =>
      match s.app.failure with
      | some c => (.ok (.error c), begun)
      | none =>
        match firstNull s.app.mayBeNull cells 0 with
        | some (column, row) => poison (.null column row) begun
        | none =>
          match amb.before 0 with
          | .error c => poison c begun
          | .ok () => concluded amb (begun.onNative (Owner.takes G (amb.answer 0) cells))

end Definitions

/-! ### A cell -/

section Cell

variable {G : Engine} {p : Owner F} {c r : ℕ}

/-- A narrow integer survives an OCaml `int` and its extension to 64 bits. -/
theorem setWidth_ocaml {w : ℕ} (h : w ≤ 63) (x : BitVec w) :
    ((x.signExtend 63).signExtend 64).setWidth w = x := by
  rw [← BitVec.setWidth_setWidth_of_le _ h, Decode.setWidth_signExtend (by omega),
    Decode.setWidth_signExtend h]

theorem stageInt64_eq {x : BitVec 64} {d : Datum F}
    (h : Owner.intDatum (p.typeOf c) x = some d) :
    p.stageInt64 G c r x = p.write G c r (Owner.putDatum (some d)) := by
  rw [Owner.stageInt64, h]

theorem stageString_string (bytes : List UInt8) (ht : p.typeOf c = Scalar.nativeId .string)
    (hs : p.slot c r = true) :
    p.stageString G c r bytes =
      match G.invalid bytes with
      | some message => { p with stagedRows := 0, stageFailed := some message }
      | none => p.write G c r (Owner.putDatum (some ⟨.string, bytes⟩)) := by
  unfold Owner.stageString
  cases G.invalid bytes <;> exact (if_neg (by simp [hs])).trans (if_pos ht)

theorem stageString_blob (bytes : List UInt8) (ht : p.typeOf c = Scalar.nativeId .blob)
    (hs : p.slot c r = true) :
    p.stageString G c r bytes = p.write G c r (Owner.putDatum (some ⟨.blob, bytes⟩)) := by
  unfold Owner.stageString
  rw [if_neg (by simp [hs]), if_neg (by rw [ht]; decide), if_pos ht]

/-- **A value is staged** as it is, unless it is text that is not valid. -/
theorem stageBase_eq {s : Scalar} (v : (Ty.ofScalar s).Value F)
    (ht : p.typeOf c = Scalar.nativeId s) (hs : p.slot c r = true) :
    p.stageBase G c r s v =
      match Datum.invalid G ⟨s, v⟩ with
      | some message => { p with stagedRows := 0, stageFailed := some message }
      | none => p.write G c r (Owner.putDatum (some ⟨s, v⟩)) := by
  cases s with
  -- an integer is staged at 64 bits and cut to the width of its column
  | int64 | timestampS | timestampMs | timestampUs | timestampNs | timestampTz =>
    exact stageInt64_eq (by rw [ht]; rfl)
  | int32 =>
    refine stageInt64_eq (d := ⟨.int32, v⟩) ?_
    rw [ht]
    exact congrArg (fun y : BitVec 32 => some (Datum.mk .int32 y))
      (Decode.setWidth_signExtend (w := 32) (by decide) v)
  | date =>
    refine stageInt64_eq (d := ⟨.date, v⟩) ?_
    rw [ht]
    exact congrArg (fun y : BitVec 32 => some (Datum.mk .date y))
      (Decode.setWidth_signExtend (w := 32) (by decide) v)
  | int16 =>
    refine stageInt64_eq (d := ⟨.int16, v⟩) ?_
    rw [ht]
    exact congrArg (fun y : BitVec 16 => some (Datum.mk .int16 y))
      (setWidth_ocaml (w := 16) (by decide) v)
  | int8 =>
    refine stageInt64_eq (d := ⟨.int8, v⟩) ?_
    rw [ht]
    exact congrArg (fun y : BitVec 8 => some (Datum.mk .int8 y)) (setWidth_ocaml (w := 8) (by decide) v)
  | bool =>
    refine stageInt64_eq (d := ⟨.bool, v⟩) ?_
    rw [ht]
    change some (Datum.mk .bool (decide ((cond v (1 : BitVec 64) 0) ≠ 0))) = _
    cases v <;> rfl
  -- floats are staged as doubles
  | float64 =>
    change p.write G c r (Owner.putDatum (Owner.floatDatum (p.typeOf c) v)) = _
    rw [ht]
    rfl
  | float32 =>
    change p.write G c r (Owner.putDatum (Owner.floatDatum (p.typeOf c) (F.widen v))) = _
    rw [ht]
    exact congrArg (fun y : F.single => p.write G c r (Owner.putDatum (some ⟨.float32, y⟩)))
      (F.narrow_widen v)
  | string => exact stageString_string v ht hs
  | blob => exact stageString_blob v ht hs

end Cell

/-! ### The staging of a row -/

section Row

variable {G : Engine} {p q q' : Owner F} {c r : ℕ}

/-- A batch that staging has failed. -/
structure Spoiled (G : Engine) (p q : Owner F) (message : String) : Prop where
  ok : q.Ok G
  lasting : q.lasting = p.lasting
  rows : q.stagedRows = 0
  failed : q.stageFailed = some message

/-- The cells from `(c, r)` on are staged, and the others are as they were. -/
structure Wrote (G : Engine) (p q : Owner F) (c r : ℕ) (cells : List (Option (Datum F))) : Prop where
  ok : q.Ok G
  lasting : q.lasting = p.lasting
  rows : q.stagedRows = p.stagedRows
  failed : q.stageFailed = p.stageFailed
  here : ∀ i x, cells[i]? = some x → q.read G (c + i) r = some x
  elsewhere : ∀ c' r', ¬ (r' = r ∧ c ≤ c' ∧ c' < c + cells.length) →
    q.read G c' r' = p.read G c' r'

theorem Wrote.nil (h : p.Ok G) : Wrote G p p c r [] :=
  ⟨h, rfl, rfl, rfl, by simp, fun _ _ _ => rfl⟩

theorem Wrote.cons {x : Option (Datum F)} {xs : List (Option (Datum F))}
    (h : Wrote G p q c r [x]) (h' : Wrote G q q' (c + 1) r xs) : Wrote G p q' c r (x :: xs) where
  ok := h'.ok
  lasting := h'.lasting.trans h.lasting
  rows := h'.rows.trans h.rows
  failed := h'.failed.trans h.failed
  here := by
    rintro (_ | i) y hy
    · rw [h'.elsewhere _ _ (by omega)]
      exact h.here 0 y (by simpa using hy)
    · rw [show c + (i + 1) = c + 1 + i by omega]
      exact h'.here i y (by simpa using hy)
  elsewhere c' r' hne := by
    simp only [List.length_cons] at hne
    rw [h'.elsewhere _ _ (by omega), h.elsewhere _ _ (by simp; omega)]

theorem Wrote.write {x : Option (Datum F)} {g : Vector F → ℕ → Vector F} (h : p.Ok G)
    (hg : ∀ v i j, j ≠ i → (g v i).cell j = v.cell j)
    (hx : (p.write G c r g).read G c r = some x) : Wrote G p (p.write G c r g) c r [x] where
  ok := h.write
  lasting := Owner.lasting_write
  rows := Owner.stagedRows_write
  failed := Owner.stageFailed_write
  here := by
    rintro (_ | i) y hy
    · simpa [← Option.some.inj hy] using hx
    · simp at hy
  elsewhere c' r' hne := Owner.read_write_of_ne h (by simp at hne; omega) hg

/-- Staging `x` either wrote it, or failed the batch. -/
def Took (G : Engine) (p q : Owner F) (c r : ℕ) (cells : List (Option (Datum F))) : Prop :=
  match rowInvalid G cells with
  | none => Wrote G p q c r cells
  | some message => Spoiled G p q message

theorem took_stageBase {s : Scalar} (h : p.Ok G) (v : (Ty.ofScalar s).Value F)
    (ht : p.typeOf c = Scalar.nativeId s) (hs : p.slot c r = true) {x : Datum F}
    (hx : p.read G c r = some (some x)) :
    Took G p (p.stageBase G c r s v) c r [some ⟨s, v⟩] := by
  have hrow : rowInvalid G [some (Datum.mk s v)] = Datum.invalid G ⟨s, v⟩ := by
    simp [rowInvalid]
  rw [Took, hrow, stageBase_eq v ht hs]
  cases Datum.invalid G ⟨s, v⟩ with
  | none =>
    exact Wrote.write h Owner.cell_putDatum_of_ne (Owner.read_putDatum h hs hx)
  | some message => exact ⟨h.drop _, rfl, rfl, rfl⟩

/-- Where no row is staged, nothing is. -/
theorem stageBase_of_none {s : Scalar} (v : (Ty.ofScalar s).Value F) (h : p.stagedRows = 0) :
    p.stageBase G c r s v = p := by
  have hs : p.slot c r = false := by simp [Owner.slot, h]
  cases s <;>
    simp [Owner.stageBase, Owner.stageInt64, Owner.stageFloat, Owner.stageString, Owner.write, hs]

theorem Took.cons {x : Option (Datum F)} {xs : List (Option (Datum F))} (h : Took G p q c r [x])
    (hnone : q.stagedRows = 0 → q' = q) (hsome : Wrote G p q c r [x] → Took G q q' (c + 1) r xs) :
    Took G p q' c r (x :: xs) := by
  have hx : rowInvalid G [x] = x.bind (Datum.invalid G) := by
    cases hx : x.bind (Datum.invalid G) <;> simp [rowInvalid, hx]
  have hxs : rowInvalid G (x :: xs) = (x.bind (Datum.invalid G)).or (rowInvalid G xs) := by
    cases hx : x.bind (Datum.invalid G) <;> simp [rowInvalid, hx]
  rw [Took, hx] at h
  rw [Took, hxs]
  cases hm : x.bind (Datum.invalid G) with
  -- the first cell is refused: nothing is staged after it
  | some message =>
    rw [hm] at h
    rw [hnone h.rows]
    exact h
  -- it is written, and the others are staged next to it
  | none =>
    rw [hm] at h
    have ht := hsome h
    rw [Took] at ht
    rw [Option.none_or]
    cases hr : rowInvalid G xs with
    | none =>
      rw [hr] at ht
      exact h.cons ht
    | some message =>
      rw [hr] at ht
      exact ⟨ht.ok, ht.lasting.trans h.lasting, ht.rows, ht.failed⟩

theorem Ok.stageBase {s : Scalar} (h : p.Ok G) (v : (Ty.ofScalar s).Value F) :
    (p.stageBase G c r s v).Ok G := by
  cases s
  case string | blob => exact h.stageString _
  case float32 | float64 => exact h.stageFloat _
  all_goals exact h.stageInt64 _

theorem lasting_stageBase {s : Scalar} (v : (Ty.ofScalar s).Value F) :
    (p.stageBase G c r s v).lasting = p.lasting := by
  cases s
  case string | blob => exact Owner.lasting_stageString _
  all_goals exact Owner.lasting_write

/-- What the staging of a part of a row does: the cells are staged when the types agree and they are
free, and nothing is when no row is staged. -/
structure Stages (G : Engine) (p : Owner F) (c r : ℕ) (ids : List ℕ)
    (result : Except (Halt E) (List (Option (Datum F)))) (q : Owner F) : Prop where
  ok : q.Ok G
  lasting : q.lasting = p.lasting
  idle : p.stagedRows = 0 → q = p
  took : ∀ cells, result = .ok cells → p.closed = false → r < p.stagedRows →
    (∀ i id, ids[i]? = some id →
      p.types[c + i]? = some id ∧ ∃ x, p.read G (c + i) r = some (some x)) →
    Took G p q c r cells

theorem slot_of_types {id : ℕ} (hclosed : p.closed = false) (hr : r < p.stagedRows)
    (ht : p.types[c]? = some id) : p.slot c r = true :=
  Owner.slot_iff.mpr ⟨hclosed, (List.getElem?_eq_some_iff.mp ht).1, hr⟩

theorem typeOf_of_types {id : ℕ} (ht : p.types[c]? = some id) : p.typeOf c = id := by
  simp [Owner.typeOf, ht]

theorem stagePlan_fst {t : Ty} (plan : Plan F E t) (index : ℕ) (value : t.Value F) :
    (stagePlan G plan c r index value p).1 = (encodePlan plan index value).map fun _ => () := by
  cases plan with
  | identity s h => rfl
  | plan s encode =>
    rw [stagePlan, encodePlan]
    cases encode value <;> rfl

theorem stagePlan_stages (h : p.Ok G) {t : Ty} (plan : Plan F E t) (index : ℕ)
    (value : t.Value F) :
    Stages G p c r [Scalar.nativeId plan.scalar]
      ((encodePlan plan index value).map fun d => [some d])
      (stagePlan G plan c r index value p).2 := by
  -- a value of the scalar's own type
  have hbase : ∀ {s : Scalar} (v : (Ty.ofScalar s).Value F),
      Stages (E := E) G p c r [Scalar.nativeId s] (.ok [some ⟨s, v⟩]) (p.stageBase G c r s v) :=
    fun v =>
      { ok := Ok.stageBase h v
        lasting := lasting_stageBase v
        idle := stageBase_of_none v
        took := fun cells hc hclosed hr hi => by
          obtain ⟨ht, x, hx⟩ := hi 0 _ rfl
          cases hc
          exact took_stageBase h v (typeOf_of_types ht) (slot_of_types hclosed hr ht) hx }
  -- an encoding that fails stages nothing
  have hstop : ∀ (ids : List ℕ) (halt : Halt E),
      Stages G p c r ids (.error halt) p := fun ids halt =>
    { ok := h, lasting := rfl, idle := fun _ => rfl, took := fun cells hc => by cases hc }
  cases plan with
  | identity s hs =>
    cases hs
    exact hbase value
  | plan s encode =>
    rw [stagePlan, encodePlan]
    cases encode value with
    | ok b => exact hbase b
    | error reason => exact hstop _ _
    | raised e => exact hstop _ _

/-- The outcome and the state of a stage. -/
theorem stagePlan_eq {t : Ty} (plan : Plan F E t) (index : ℕ) (value : t.Value F) :
    stagePlan G plan c r index value p =
      ((encodePlan plan index value).map fun _ => (), (stagePlan G plan c r index value p).2) :=
  Prod.ext (stagePlan_fst plan index value) rfl

/-- A value that is staged through a plan. -/
theorem stagePlan_bind {t : Ty} (plan : Plan F E t) (index : ℕ) (value : t.Value F) :
    (do
      stagePlan G plan c r index value
      return none : Comp (Owner F) (Halt E) (Option ℕ)) p =
      ((encodePlan plan index value).map fun _ => none,
        (stagePlan G plan c r index value p).2) := by
  have h := stagePlan_eq (G := G) (p := p) (c := c) (r := r) plan index value
  cases he : encodePlan plan index value with
  | ok d =>
    rw [he] at h
    exact (Comp.bind_ok h).trans rfl
  | error halt =>
    rw [he] at h
    exact (Comp.bind_error h).trans rfl

theorem stageValue_eq (h : p.Ok G) (nullable : ℕ → Bool) {t : Ty} (codec : Codec F E t)
    (value : t.Value F) :
    ∃ q, stageValue G nullable codec c r value p =
        ((encodeValue codec (c + 1) value).map fun x => rowNull nullable [x] c, q) ∧
      Stages G p c r [Scalar.nativeId codec.scalar]
        ((encodeValue codec (c + 1) value).map fun x => [x]) q := by
  -- a value is staged as its plan encodes it
  have hsome : ∀ {t : Ty} (plan : Plan F E t) (value : t.Value F), ∃ q,
      (do
        stagePlan G plan c r (c + 1) value
        return none : Comp (Owner F) (Halt E) (Option ℕ)) p =
        ((some <$> encodePlan plan (c + 1) value).map fun x => rowNull nullable [x] c, q) ∧
      Stages G p c r [Scalar.nativeId plan.scalar]
        ((some <$> encodePlan plan (c + 1) value).map fun x => [x]) q := by
    intro t plan value
    refine ⟨_, (stagePlan_bind plan (c + 1) value).trans (Prod.ext ?_ rfl), ?_⟩
    · cases encodePlan plan (c + 1) value <;> rfl
    · have := stagePlan_stages (c := c) (r := r) h plan (c + 1) value
      cases he : encodePlan plan (c + 1) value <;> rw [he] at this <;> exact this
  cases codec with
  | nonNull plan => exact hsome plan value
  | @nullable t plan =>
    cases hv : (value : Option (t.Value F)) with
    | some value => exact hsome plan value
    -- and NULL sets the cell's bit alone
    | none =>
      refine ⟨p.stageNull G c r, rfl, h.stageNull, Owner.lasting_write, fun hr => ?_, ?_⟩
      · simp [Owner.stageNull, Owner.write, Owner.slot, hr]
      · intro cells hc hclosed hr hi
        obtain ⟨ht, -⟩ := hi 0 _ rfl
        cases hc
        exact Wrote.write h Owner.cell_setRowInvalid_of_ne
          (Owner.read_stageNull h (slot_of_types hclosed hr ht))

theorem rowNull_cons (nullable : ℕ → Bool) (x : Option (Datum F)) (xs : List (Option (Datum F)))
    (c : ℕ) :
    rowNull nullable (x :: xs) c = (rowNull nullable [x] c).or (rowNull nullable xs (c + 1)) := by
  cases x with
  | none =>
    simp only [rowNull]
    split <;> rfl
  | some d => rfl

/-- **A row is staged**, or spoiled by the first text that is not valid. -/
theorem stageRow_eq (nullable : ℕ → Bool) {ts : List Ty} (fields : Fields F E ts) (args : Args F ts)
    {p : Owner F} (h : p.Ok G) (c : ℕ) :
    ∃ q, stageRow G nullable fields args c r p =
        ((encodeRow fields args c).map fun xs => rowNull nullable xs c, q) ∧
      Stages G p c r fields.ids (encodeRow fields args c) q := by
  induction fields generalizing p c with
  | nil =>
    cases args
    exact ⟨p, rfl, h, rfl, fun _ => rfl, fun cells hc _ _ _ => by cases hc; exact Wrote.nil h⟩
  | cons codec fields ih =>
    cases args with
    | cons value args =>
      obtain ⟨q, hq, hs⟩ := stageValue_eq (c := c) (r := r) h nullable codec value
      cases hx : encodeValue codec (c + 1) value with
      -- the value has no encoding: the row ends, and the batch with it
      | error halt =>
        rw [hx] at hq hs
        have he : encodeRow (.cons codec fields) (.cons value args) c = .error halt := by
          rw [encodeRow, hx]
          rfl
        rw [he]
        exact ⟨q, Comp.bind_error hq, hs.ok, hs.lasting, hs.idle, fun _ hc => by cases hc⟩
      | ok x =>
        rw [hx] at hq hs
        obtain ⟨q', hq', hs'⟩ := ih args hs.ok (c + 1)
        have he : encodeRow (.cons codec fields) (.cons value args) c =
            (encodeRow fields args (c + 1)).map (x :: ·) := by
          rw [encodeRow, hx]
          cases encodeRow fields args (c + 1) <;> rfl
        -- the NULL that is reported is the first one of the row
        have hrun : stageRow G nullable (.cons codec fields) (.cons value args) c r p =
            ((encodeRow fields args (c + 1)).map fun xs => rowNull nullable (x :: xs) c, q') := by
          refine (Comp.bind_ok hq).trans ?_
          cases hxs : encodeRow fields args (c + 1) with
          | error halt =>
            rw [hxs] at hq'
            exact Comp.bind_error hq'
          | ok xs =>
            rw [hxs] at hq'
            refine (Comp.bind_ok hq').trans ?_
            rw [Except.map, rowNull_cons]
            rfl
        rw [he]
        refine ⟨q', hrun.trans (Prod.ext ?_ rfl), hs'.ok, hs'.lasting.trans hs.lasting, ?_, ?_⟩
        · cases encodeRow fields args (c + 1) <;> rfl
        · intro hr
          have := hs.idle hr
          subst this
          exact hs'.idle hr
        · intro cells hc hclosed hr hi
          cases hxs : encodeRow fields args (c + 1) with
          | error halt => rw [hxs] at hc; cases hc
          | ok xs =>
            rw [hxs] at hc
            cases hc
            -- the value is in its cell, and the cells to its right are as they were
            have hone := hs.took [x] rfl hclosed hr fun i id hid => by
              obtain rfl : i = 0 := by
                by_contra hne
                simp [hne] at hid
              exact hi 0 id (by simpa [Fields.ids] using hid)
            refine hone.cons hs'.idle fun hw => hs'.took xs hxs ?_ (hw.rows ▸ hr) fun i id hid => ?_
            · exact (Owner.closed_of_lasting hw.lasting).trans hclosed
            · obtain ⟨ht, y, hy⟩ := hi (i + 1) id hid
              rw [show c + 1 + i = c + (i + 1) by omega]
              refine ⟨by rw [Owner.types_of_lasting hw.lasting, ht], y, ?_⟩
              rw [hw.elsewhere _ _ (by simp), hy]

end Row

/-! ### The staging of a batch -/

section Batch

variable {G : Engine} {p q q' : Owner F} {row : ℕ}

/-- The rows from `row` on are staged, and the others are as they were. -/
structure WroteRows (G : Engine) (p q : Owner F) (row : ℕ)
    (cells : List (List (Option (Datum F)))) : Prop where
  ok : q.Ok G
  lasting : q.lasting = p.lasting
  rows : q.stagedRows = p.stagedRows
  failed : q.stageFailed = p.stageFailed
  here : ∀ i xs, cells[i]? = some xs → ∀ c x, xs[c]? = some x → q.read G c (row + i) = some x
  elsewhere : ∀ c r, ¬ (row ≤ r ∧ r < row + cells.length) → q.read G c r = p.read G c r

theorem WroteRows.cons {xs : List (Option (Datum F))} {cells : List (List (Option (Datum F)))}
    (h : Wrote G p q 0 row xs) (h' : WroteRows G q q' (row + 1) cells) :
    WroteRows G p q' row (xs :: cells) where
  ok := h'.ok
  lasting := h'.lasting.trans h.lasting
  rows := h'.rows.trans h.rows
  failed := h'.failed.trans h.failed
  here := by
    rintro (_ | i) ys hys c x hx
    · cases hys
      rw [h'.elsewhere _ _ (by omega)]
      simpa using h.here c x hx
    · rw [show row + (i + 1) = row + 1 + i by omega]
      exact h'.here i ys (by simpa using hys) c x hx
  elsewhere c r hne := by
    simp only [List.length_cons] at hne
    rw [h'.elsewhere _ _ (by omega), h.elsewhere _ _ (by omega)]

/-- The batch is staged, or spoiled by the first text that is not valid. -/
def TookRows (G : Engine) (p q : Owner F) (row : ℕ) (cells : List (List (Option (Datum F)))) : Prop :=
  match firstInvalid G cells with
  | none => WroteRows G p q row cells
  | some message => Spoiled G p q message

structure StagesRows (G : Engine) (p : Owner F) (row : ℕ) (ids : List ℕ) (n : ℕ)
    (result : Except (Halt E) (List (List (Option (Datum F))))) (q : Owner F) : Prop where
  ok : q.Ok G
  lasting : q.lasting = p.lasting
  idle : p.stagedRows = 0 → q = p
  took : ∀ cells, result = .ok cells → p.closed = false → row + n ≤ p.stagedRows →
    (∀ i id : ℕ, ids[i]? = some id → p.types[i]? = some id) →
    (∀ c < ids.length, ∀ r < p.stagedRows, row ≤ r → ∃ x, p.read G c r = some (some x)) →
    TookRows G p q row cells

theorem encodeRow_length {ts : List Ty} {fields : Fields F E ts} {args : Args F ts} {c : ℕ}
    {cells : List (Option (Datum F))} (h : encodeRow fields args c = .ok cells) :
    cells.length = fields.ids.length := by
  induction fields generalizing c cells with
  | nil =>
    cases args
    cases h
    rfl
  | cons codec fields ih =>
    cases args with
    | cons value args =>
      rw [encodeRow] at h
      cases hx : encodeValue codec (c + 1) value with
      | error halt => rw [hx] at h; cases h
      | ok x =>
        cases hxs : encodeRow fields args (c + 1) with
        | error halt => rw [hx, hxs] at h; cases h
        | ok xs =>
          rw [hx, hxs] at h
          cases h
          simp [Fields.ids, ih hxs]

theorem encodeRows_cons {ts : List Ty} {fields : Fields F E ts} {args : Args F ts}
    {rows : List (Args F ts)} {cells : List (List (Option (Datum F)))}
    (h : encodeRows fields (args :: rows) = .ok cells) :
    ∃ xs rest, encodeRow fields args 0 = .ok xs ∧ encodeRows fields rows = .ok rest ∧
      cells = xs :: rest := by
  rw [encodeRows] at h
  cases hx : encodeRow fields args 0 with
  | error halt => rw [hx] at h; cases h
  | ok xs =>
    cases hr : encodeRows fields rows with
    | error halt => rw [hx, hr] at h; cases h
    | ok rest =>
      rw [hx, hr] at h
      cases h
      exact ⟨xs, rest, rfl, rfl, rfl⟩

theorem encodeRows_length {ts : List Ty} {fields : Fields F E ts} {rows : List (Args F ts)}
    {cells : List (List (Option (Datum F)))} (h : encodeRows fields rows = .ok cells) :
    cells.length = rows.length := by
  induction rows generalizing cells with
  | nil =>
    cases h
    rfl
  | cons args rows ih =>
    obtain ⟨xs, rest, -, hr, rfl⟩ := encodeRows_cons h
    simp [ih hr]

theorem width_of_mem {ts : List Ty} {fields : Fields F E ts} {rows : List (Args F ts)}
    {cells : List (List (Option (Datum F)))} (h : encodeRows fields rows = .ok cells)
    {xs : List (Option (Datum F))} (hm : xs ∈ cells) : xs.length = fields.ids.length := by
  induction rows generalizing cells with
  | nil =>
    cases h
    cases hm
  | cons args rows ih =>
    obtain ⟨ys, rest, hx, hr, rfl⟩ := encodeRows_cons h
    obtain rfl | hm := List.mem_cons.mp hm
    · exact encodeRow_length hx
    · exact ih hr hm

/-- **A batch is staged**, or spoiled by the first text that is not valid. -/
theorem stageRows_eq (nullable : ℕ → Bool) {ts : List Ty} (fields : Fields F E ts)
    (rows : List (Args F ts)) {p : Owner F} (h : p.Ok G) (row : ℕ) (first : Option (ℕ × ℕ)) :
    ∃ q, stageRows G nullable fields rows row first p =
        ((encodeRows fields rows).map fun cells => first.or (firstNull nullable cells row), q) ∧
      StagesRows G p row fields.ids rows.length (encodeRows fields rows) q := by
  induction rows generalizing p row first with
  | nil =>
    refine ⟨p, by simp [stageRows, encodeRows, firstNull, Except.map]; rfl, h, rfl, fun _ => rfl, ?_⟩
    intro cells hc _ _ _ _
    cases hc
    exact ⟨h, rfl, rfl, rfl, by simp, fun _ _ _ => rfl⟩
  -- the row of the induction is staged first; a value without an encoding ends the batch there
  | cons args rows ih =>
    obtain ⟨q, hq, hs⟩ := stageRow_eq (r := row) nullable fields args h 0
    cases hx : encodeRow fields args 0 with
    | error halt =>
      rw [hx] at hq hs
      have he : encodeRows fields (args :: rows) = .error halt := by
        rw [encodeRows, hx]
        rfl
      rw [he]
      exact ⟨q, Comp.bind_error hq, hs.ok, hs.lasting, hs.idle, fun _ hc => by cases hc⟩
    | ok xs =>
      rw [hx] at hq hs
      obtain ⟨q', hq', hs'⟩ := ih hs.ok (row + 1) (first.or ((rowNull nullable xs 0).map (·, row)))
      have he : encodeRows fields (args :: rows) = (encodeRows fields rows).map (xs :: ·) := by
        rw [encodeRows, hx]
        cases encodeRows fields rows <;> rfl
      rw [he]
      refine ⟨q', (Comp.bind_ok hq).trans (hq'.trans (Prod.ext ?_ rfl)), hs'.ok,
        hs'.lasting.trans hs.lasting, ?_, ?_⟩
      · cases encodeRows fields rows with
        | error halt => rfl
        | ok cells => simp [Except.map, firstNull, Option.or_assoc]
      · intro hr
        have := hs.idle hr
        subst this
        exact hs'.idle hr
      · intro cells hc hclosed hn htypes hfresh
        simp only [List.length_cons] at hn
        cases hcells : encodeRows fields rows with
        | error halt => rw [hcells] at hc; cases hc
        | ok rest =>
          rw [hcells] at hc
          cases hc
          have hlen := encodeRow_length hx
          have hone := hs.took xs rfl hclosed (by omega) fun i id hid => by
            rw [Nat.zero_add]
            exact ⟨htypes i id hid,
              hfresh i (List.getElem?_eq_some_iff.mp hid).1 row (by omega) (Nat.le_refl _)⟩
          -- what spoils the batch is the first invalid text, in the order of the rows
          have hinvalid : firstInvalid G (xs :: rest) =
              (rowInvalid G xs).or (firstInvalid G rest) := by
            cases hm : rowInvalid G xs <;> simp [firstInvalid, hm]
          rw [TookRows, hinvalid]
          rw [Took] at hone
          cases hm : rowInvalid G xs with
          -- the batch is spoiled by this row, and the others stage nothing
          | some message =>
            rw [hm] at hone
            rw [hs'.idle hone.rows]
            exact hone
          | none =>
            rw [hm] at hone
            -- this row is in place, and the cells of the others are still fresh
            have hrest := hs'.took rest hcells
              ((Owner.closed_of_lasting hone.lasting).trans hclosed) (by rw [hone.rows]; omega)
              (fun i id hid => by rw [Owner.types_of_lasting hone.lasting]; exact htypes i id hid)
              fun c hc r hr hle => by
                rw [hone.elsewhere _ _ (by omega)]
                exact hfresh c hc r (hone.rows ▸ hr) (by omega)
            rw [TookRows] at hrest
            rw [Option.none_or]
            cases hf : firstInvalid G rest with
            | none =>
              rw [hf] at hrest
              exact WroteRows.cons hone hrest
            | some message =>
              rw [hf] at hrest
              exact ⟨hrest.ok, hrest.lasting.trans hone.lasting, hrest.rows, hrest.failed⟩

end Batch

/-! ### Refinement -/

/-- What holds of an appender: its pool is as it should be, and until it fails or is closed it has
the columns of its native appender. -/
structure St.Ok (G : Engine) (s : St F) : Prop where
  native : s.app.native.Ok G
  same : s.app.failure = none → s.app.childOpen = true →
    s.app.native.closed = false ∧ s.app.types = s.app.native.types ∧
      s.app.nullable = s.app.native.nullable

section Refinement

variable {G : Engine} {amb : Ambient E} {s t : St F}

theorem childOpen_of_admission (h : admission amb s = .ok ()) : s.app.childOpen = true := by
  cases hc : s.app.childOpen with
  | true => rfl
  | false => simp [admission, admitOperation, hc] at h

section Begun

variable {p q : Owner F} {grant : Grant} {rows : ℕ}

theorem begun_of_failed (h : p.closed = true ∨ p.status.isSome = true) :
    p.begun G grant rows = p := by
  unfold Owner.begun
  split
  case isTrue => rfl
  case isFalse hc =>
    obtain ⟨c, hstatus⟩ := Option.isSome_iff_exists.mp (h.resolve_left hc)
    rw [hstatus, Option.some_or, ← hstatus]

theorem begun_of_shortage {m : String} (hc : p.closed = false) (hs : p.status = none)
    (hm : p.shortage G grant rows = some m) :
    p.begun G grant rows = { p with status := some (.native m) } := by
  unfold Owner.begun
  rw [if_neg (by simp [hc]), hs, hm]
  rfl

theorem begun_of_none (hm : p.shortage G grant rows = none) : p.begun G grant rows = p := by
  unfold Owner.begun
  rw [hm, Option.map_none, Option.or_none, ite_self]

theorem lasting_begun (h : p.Ok G) :
    (p.stageBegin G grant rows).lasting = (p.begun G grant rows).lasting := by
  obtain ⟨hi, he⟩ | ⟨hc, hs, m, hm, -, hl, -⟩ | ⟨hc, hs, hm, -, hl, -⟩ :=
    Owner.stageBegin_cases h grant rows
  · rw [he, begun_of_failed hi, Owner.lasting_clearInput]
  · rw [hl, begun_of_shortage hc hs hm]
  · rw [hl, begun_of_none hm]

theorem takes_of_failed {answer : ℕ → Answer} {cells : List (List (Option (Datum F)))}
    (h : p.status.isSome = true) : p.takes G answer cells = p := by
  rw [Owner.takes, if_pos h]

end Begun

/-- The rows staged reach the engine as the batch would. -/
theorem appendStaged_takes {p q : Owner F} (answer : ℕ → Answer) (h : p.Ok G)
    (hclosed : p.closed = false) {grant : Grant} {ts : List Ty} {fields : Fields F E ts}
    {rows : List (Args F ts)} {cells : List (List (Option (Datum F)))} (htypes : p.types = fields.ids)
    (hcells : encodeRows fields rows = .ok cells)
    (hq : StagesRows G (p.stageBegin G grant rows.length) 0 fields.ids rows.length
      (encodeRows fields rows) q) :
    (q.appendStaged G answer).lasting =
      ((p.begun G grant rows.length).takes G answer cells).lasting := by
  obtain ⟨hi, he⟩ | ⟨-, hs, m, hm, -, hl, hr, hf⟩ | ⟨-, hs, hm, hok, hl, hr, hf, hfresh⟩ :=
    Owner.stageBegin_cases h grant rows.length
  -- the appender had failed before
  · have hsome := hi.resolve_left (by simp [hclosed])
    rw [hq.idle (by rw [he]; rfl), he, begun_of_failed hi, takes_of_failed hsome]
    exact Owner.appendStaged_of_none (p := p.clearInput) answer hclosed rfl rfl
  -- the vectors could not be made
  · have hcl : (p.stageBegin G grant rows.length).closed = false :=
      (Owner.closed_of_lasting hl).trans hclosed
    rw [hq.idle hr, Owner.appendStaged_of_none _ hcl hf hr, hl, begun_of_shortage hclosed hs hm,
      takes_of_failed rfl]
  · have hcl : q.closed = false := (Owner.closed_of_lasting (hq.lasting.trans hl)).trans hclosed
    have hst : q.status = none := (Owner.status_of_lasting (hq.lasting.trans hl)).trans hs
    have hlen : cells.length = rows.length := encodeRows_length hcells
    have htook := hq.took cells hcells ((Owner.closed_of_lasting hl).trans hclosed)
      (by simp [hr]) (fun i id hid => by rw [Owner.types_of_lasting hl, htypes, hid])
      fun c hc r hlt _ => hfresh c (htypes ▸ hc) r (hr ▸ hlt)
    rw [begun_of_none hm, Owner.takes, if_neg (by simp [hs])]
    rw [TookRows] at htook
    cases hinvalid : firstInvalid G cells with
    -- a text is refused, and its message is what the flush answers
    | some message =>
      rw [hinvalid] at htook
      rw [Owner.appendStaged_of_failed _ hcl htook.failed, Owner.error_eq hst]
      exact congrArg (fun o : Owner F => { o with status := some (.native message) })
        (htook.lasting.trans hl)
    -- all rows are in the vectors
    | none =>
      rw [hinvalid] at htook
      rw [Owner.appendStaged_eq _ htook.ok answer hcl (htook.failed.trans hf) hst
        (by rw [htook.rows, hr, hlen]) (fun xs hxs => ?_) fun r xs hxs c x hx => by
          simpa using htook.here r xs hxs c x hx]
      · exact congrArg (fun o : Owner F =>
          { o with
            received := o.received ++ (deliver answer 0 (G.batches cells)).1
            status := (deliver answer 0 (G.batches cells)).2 }) (htook.lasting.trans hl)
      · rw [Owner.types_of_lasting (htook.lasting.trans hl), htypes]
        exact width_of_mem hcells hxs

/-- Clearing the staging afterwards is no part of what lasts. -/
theorem clearing_fst (work : Op F E Result) : (clearing work s).1 = (work s).1 := rfl

theorem clearing_snd (work : Op F E Result) :
    (clearing work s).2.lasting = (work s).2.lasting := rfl

theorem concluded_congr (h : s.lasting = t.lasting) :
    (concluded amb s).1 = (concluded amb t).1 ∧
      (concluded amb s).2.lasting = (concluded amb t).2.lasting := by
  have hstatus : s.app.native.status = t.app.native.status := by
    have := congrArg (fun u : St F => u.app.native.status) h
    exact this
  unfold concluded
  rw [hstatus]
  cases amb.interrupt 0 with
  | some e => exact ⟨rfl, poison_snd (E := E) h _⟩
  | none =>
    cases t.app.native.status with
    | some c => exact ⟨poison_fst h _, poison_snd h _⟩
    | none =>
      cases amb.after with
      | error c => exact ⟨poison_fst h _, poison_snd h _⟩
      | ok u => exact ⟨rfl, h⟩

/-- A native call and its status, within an operation. -/
theorem concluded_eq (amb : Ambient E) (s : St F) (f : Owner F → Owner F) :
    afterwards amb ((do
        call amb 0 f
        status : Op F E Result) s) = concluded amb (s.onNative f) := by
  unfold concluded
  cases hi : amb.interrupt 0 with
  | some e =>
    have : call amb 0 f s = (.error e, s.onNative f) := by simp [call, hi]
    rw [Comp.bind_error this]
    rfl
  | none =>
    have : call amb 0 f s = (.ok (), s.onNative f) := by simp [call, hi]
    rw [Comp.bind_ok this, status, Owner.result]
    cases (s.onNative f).app.native.status <;> rfl

variable (amb) in
/-- **A batch of rows** behaves as what is encoded of it, whatever the pool was used for before. -/
theorem appendRows_eq (h : s.Ok G) {ts : List Ty} {fields : Fields F E ts}
    (htypes : s.app.types = fields.ids) (rows : List (Args F ts)) :
    (appendRows G amb fields rows s).1 = (appended G amb fields rows s).1 ∧
      (appendRows G amb fields rows s).2.lasting = (appended G amb fields rows s).2.lasting ∧
      (appendRows G amb fields rows s).2.app.native.stagedRows = 0 ∧
      (appendRows G amb fields rows s).2.app.native.stageFailed = none := by
  obtain ⟨q, hrun, hq⟩ := stageRows_eq s.app.mayBeNull fields rows
    (h.native.stageBegin (amb.grant 0) rows.length) 0 none
  -- what staging the rows leaves is what beginning it leaves
  have hbegun : (s.onNative fun _ => q).lasting =
      (s.onNative (Owner.begun G (amb.grant 0) rows.length)).lasting :=
    St.lasting_onNative rfl (hq.lasting.trans (lasting_begun h.native))
  rw [appendRows, hrun, appended]
  cases hcells : encodeRows fields rows with
  -- a value that does not encode ends the batch before the engine sees it
  | error halt =>
    cases halt with
    | rejected index reason => exact ⟨rfl, hbegun, rfl, rfl⟩
    | raised e => exact ⟨rfl, hbegun, rfl, rfl⟩
  | ok cells =>
    -- the admission, a failure and a NULL come first, in the order of the code
    have hadmit : admission amb (s.onNative fun _ => q) = admission amb s := rfl
    have hfailure : (s.onNative fun _ => q).app.failure = s.app.failure := rfl
    simp only [Except.map, Option.none_or, appendStaged]
    refine and_assoc.mp ⟨?_, rfl, rfl⟩
    rw [clearing_fst, clearing_snd, operation, hadmit, hfailure]
    cases ha : admission amb s with
    | error c => exact ⟨rfl, hbegun⟩
    | ok u =>
      cases hf : s.app.failure with
      | some c => exact ⟨rfl, hbegun⟩
      | none =>
        cases firstNull s.app.mayBeNull cells 0 with
        | some null => exact ⟨poison_fst hbegun _, poison_snd hbegun _⟩
        | none =>
          simp only [checked]
          cases amb.before 0 with
          | error c => exact ⟨poison_fst hbegun _, poison_snd hbegun _⟩
          | ok u' =>
            obtain ⟨hclosed, hsame, -⟩ := h.same hf (childOpen_of_admission ha)
            have htake := appendStaged_takes (amb.answer 0) h.native hclosed
              (hsame ▸ htypes) hcells hq
            have hend : ((s.onNative fun _ => q).onNative
                (Owner.appendStaged G · (amb.answer 0))).lasting =
                ((s.onNative (Owner.begun G (amb.grant 0) rows.length)).onNative
                  (Owner.takes G (amb.answer 0) cells)).lasting :=
              St.lasting_onNative rfl htake
            simp only [concluded_eq]
            exact concluded_congr hend

end Refinement

end DuckdbMl.Appender
