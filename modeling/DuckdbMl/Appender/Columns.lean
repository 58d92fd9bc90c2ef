import DuckdbMl.Appender.Rows

/-!
# Columns to append

Whole columns are checked first, and then staged slice by slice, each slice in one chunk.

## Main definitions

* `Col`, `Bulk`: a column of a bulk append, and the columns of one
* `checkColumnsBulk`: the checks, column by column
* `stageColumns`: the rows of a slice
* `appendColumns`: whole columns
* `Bulk.rows`: the same values, row by row

## Main results

* `slices_cover`: the slices cover the rows without gap or overlap
* `sliceAll_ok`: a bulk append that succeeds sends the cells of its rows
-/

namespace DuckdbMl.Appender

open Effects
open DuckdbMl.Decode (Floats Scalar.nativeId)
open DuckdbMl.Sql (Scalar)

/-- A column: a Bigarray, an array of strings, or one of these with a mask, where zero means NULL. -/
inductive Col (F : Floats) : Ty → Type 1
  | int64 (s : Scalar) (h : Ty.ofScalar s = .int64) (d : List (BitVec 64)) : Col F .int64
  | int32 (s : Scalar) (h : Ty.ofScalar s = .int32) (d : List (BitVec 32)) : Col F .int32
  | int16 (d : List (BitVec 16)) : Col F .int16
  | int8 (d : List (BitVec 8)) : Col F .int8
  | bool (d : List (BitVec 8)) : Col F .bool
  | float64 (d : List F.double) : Col F .float64
  | float32 (d : List F.single) : Col F .float32
  | strings (s : Scalar) (h : Ty.ofScalar s = .bytes) (texts : List (List UInt8)) : Col F .bytes
  | nullable {t : Ty} (inner : Col F t) (mask : List (BitVec 8)) : Col F (.option t)

/-- The columns of a bulk append. -/
inductive Bulk (F : Floats) : List Ty → Type 1
  | nil : Bulk F []
  | cons {t : Ty} {ts : List Ty} (col : Col F t) (rest : Bulk F ts) : Bulk F (t :: ts)

variable {F : Floats} {E : Type}

/-- `bulk_length`. -/
def Col.length : {t : Ty} → Col F t → ℕ
  | _, .int64 _ _ d => d.length
  | _, .int32 _ _ d => d.length
  | _, .int16 d => d.length
  | _, .int8 d => d.length
  | _, .bool d => d.length
  | _, .float64 d => d.length
  | _, .float32 d => d.length
  | _, .strings _ _ texts => texts.length
  | _, .nullable inner _ => inner.length

/-- `bulk_scalar`. -/
def Col.scalar : {t : Ty} → Col F t → Scalar
  | _, .int64 s _ _ => s
  | _, .int32 s _ _ => s
  | _, .int16 _ => .int16
  | _, .int8 _ => .int8
  | _, .bool _ => .bool
  | _, .float64 _ => .float64
  | _, .float32 _ => .float32
  | _, .strings s _ _ => s
  | _, .nullable inner _ => inner.scalar

def Col.maskLength {t : Ty} : Col F t → ℕ
  | .nullable _ mask => mask.length
  | col => col.length

/-- The first zero of a mask. -/
def firstZero (mask : List (BitVec 8)) (length : ℕ) : Option ℕ :=
  (List.range length).find? fun i => mask[i]? = some 0

def Plan.custom {t : Ty} : Plan F E t → Bool
  | .identity _ _ => false
  | .plan _ _ => true

def Codec.custom {t : Ty} : Codec F E t → Bool
  | .nonNull plan => plan.custom
  | .nullable plan => plan.custom

/-- The first NULL of a column. -/
def Col.firstNull {t : Ty} (rows : ℕ) : Col F t → Option ℕ
  | .nullable _ mask => firstZero mask rows
  | _ => none

section Definitions

variable (a : App F)

/-- The checks of a column. -/
def checkColumn {t : Ty} (codec : Codec F E t) (col : Col F t) (column rows : ℕ) : Result :=
  let actual := a.types[column]?.getD Decode.invalid
  if col.length ≠ rows then .error (.lengthMismatch column rows col.length)
  else if col.maskLength ≠ rows then .error (.lengthMismatch column rows col.maskLength)
  else if codec.custom then
    .error (.encodeRejected (column + 1) "a column with a custom codec cannot be appended in bulk")
  else if actual ≠ Scalar.nativeId col.scalar then
    .error (.typeMismatch column col.scalar.name (Decode.typeName actual))
  else if a.mayBeNull column then .ok ()
  else match col.firstNull rows with
    | some row => .error (.null column row)
    | none => .ok ()

def checkColumnsBulk : {ts : List Ty} → Fields F E ts → Bulk F ts → ℕ → ℕ → Result
  | _, .nil, .nil, _, _ => .ok ()
  | _, .cons codec fields, .cons col bulk, column, rows =>
    match checkColumn a codec col column rows with
    | .error c => .error c
    | .ok () => checkColumnsBulk fields bulk (column + 1) rows

variable (G : Engine)

/-- The rows `[pos, pos + n)` of a column go to the first rows of the staging. Text under a NULL is
not staged. -/
def stageColumn : {t : Ty} → Col F t → ℕ → ℕ → ℕ → Owner F → Owner F
  | _, .int64 _ _ d, column, pos, n, p => p.stageBlit G column ⟨.int64, d⟩ pos n
  | _, .int32 _ _ d, column, pos, n, p => p.stageBlit G column ⟨.int32, d⟩ pos n
  | _, .int16 d, column, pos, n, p => p.stageBlit G column ⟨.sint16, d⟩ pos n
  | _, .int8 d, column, pos, n, p => p.stageBlit G column ⟨.sint8, d⟩ pos n
  | _, .bool d, column, pos, n, p => p.stageBlit G column ⟨.uint8, d⟩ pos n
  | _, .float64 d, column, pos, n, p => p.stageBlit G column ⟨.float64, d⟩ pos n
  | _, .float32 d, column, pos, n, p => p.stageBlit G column ⟨.float32, d⟩ pos n
  | _, .strings _ _ texts, column, pos, n, p =>
    (List.range n).foldl (fun p i => p.stageString G column i (texts[pos + i]?.getD [])) p
  | _, .nullable (.strings _ _ texts) mask, column, pos, n, p =>
    (List.range n).foldl (fun p i =>
      if mask[pos + i]? = some 0 then p.stageNull G column i
      else p.stageString G column i (texts[pos + i]?.getD [])) p
  | _, .nullable inner mask, column, pos, n, p =>
    (stageColumn inner column pos n p).stageMask G column mask pos n

def stageColumns : {ts : List Ty} → Bulk F ts → ℕ → ℕ → ℕ → Owner F → Owner F
  | _, .nil, _, _, _, p => p
  | _, .cons col bulk, column, pos, n, p =>
    stageColumns bulk (column + 1) pos n (stageColumn G col column pos n p)

def Bulk.length : {ts : List Ty} → Bulk F ts → ℕ
  | _, .nil => 0
  | _, .cons col _ => col.length

def appendBulk (amb : Ambient E) {ts : List Ty} (fields : Fields F E ts) (bulk : Bulk F ts) :
    Op F E Result := fun s =>
  match checkColumnsBulk s.app fields bulk 0 bulk.length with
  | .error c => (.ok (.error c), s)
  | .ok () => appendSlices G amb bulk.length (stageColumns G bulk 0) s

/-- `Table.append_columns`. -/
def appendColumns (amb : Ambient E) (t : Table F E) (bulk : Bulk F t.ts) :
    Op F E (Except Failure Unit) :=
  inTable t (appendBulk G amb t.fields bulk)

end Definitions

/-! ### The same values, row by row -/

/-- The value of a row. -/
def Col.value : {t : Ty} → Col F t → ℕ → t.Value F
  | _, .int64 _ _ d, i => (d[i]?.getD 0 : BitVec 64)
  | _, .int32 _ _ d, i => (d[i]?.getD 0 : BitVec 32)
  | _, .int16 d, i => (d[i]?.getD 0 : BitVec 16)
  | _, .int8 d, i => (d[i]?.getD 0 : BitVec 8)
  | _, .bool d, i => (Owner.nonzero (d[i]?.getD 0) : Bool)
  | _, .float64 d, i => (d[i]?.getD (F.doubleOfBits 0) : F.double)
  | _, .float32 d, i => (d[i]?.getD (F.singleOfBits 0) : F.single)
  | _, .strings _ _ texts, i => (texts[i]?.getD [] : List UInt8)
  | _, .nullable inner mask, i =>
    (if mask[i]? = some 0 then none else some (inner.value i) : Option _)

def Bulk.row : {ts : List Ty} → Bulk F ts → ℕ → Args F ts
  | _, .nil, _ => .nil
  | _, .cons col bulk, i => .cons (col.value i) (bulk.row i)

/-- The rows of a bulk append. -/
def Bulk.rows {ts : List Ty} (bulk : Bulk F ts) : List (Args F ts) :=
  (List.range bulk.length).map bulk.row

/-- What a row of a column is to the engine. -/
def Col.cell : {t : Ty} → Col F t → ℕ → Option (Datum F)
  | _, .int64 s h d, i => some ⟨s, h ▸ (Col.int64 s h d).value i⟩
  | _, .int32 s h d, i => some ⟨s, h ▸ (Col.int32 s h d).value i⟩
  | _, .int16 d, i => some ⟨.int16, (Col.int16 d).value i⟩
  | _, .int8 d, i => some ⟨.int8, (Col.int8 d).value i⟩
  | _, .bool d, i => some ⟨.bool, (Col.bool d).value i⟩
  | _, .float64 d, i => some ⟨.float64, (Col.float64 d).value i⟩
  | _, .float32 d, i => some ⟨.float32, (Col.float32 d).value i⟩
  | _, .strings s h texts, i => some ⟨s, h ▸ (Col.strings s h texts).value i⟩
  | _, .nullable inner mask, i => if mask[i]? = some 0 then none else inner.cell i

theorem nativeId_injective {s s' : Scalar} (h : Scalar.nativeId s = Scalar.nativeId s') : s = s' := by
  have := ofId_nativeId s
  rw [h, ofId_nativeId] at this
  exact (Option.some.inj this).symm

theorem encodePlan_cell {s : Scalar} {t : Ty} (h : Ty.ofScalar s = t) {col : Col F t}
    (hs : s = col.scalar) (index i : ℕ) :
    some <$> encodePlan (.identity (E := E) s h) index (col.value i) = .ok (col.cell i) := by
  cases col
  case nullable => cases s <;> cases h
  all_goals
    cases hs
    rfl

/-- **A value** encodes to the cell that its column has. -/
theorem encodeValue_cell {t : Ty} {codec : Codec F E t} {col : Col F t} (hc : codec.custom = false)
    (hs : codec.scalar = col.scalar) (index i : ℕ) :
    encodeValue codec index (col.value i) = .ok (col.cell i) := by
  cases codec with
  | nonNull plan =>
    cases plan with
    | plan s encode => cases hc
    | identity s h => exact encodePlan_cell h hs index i
  | nullable plan =>
    cases plan with
    | plan s encode => cases hc
    | identity s h =>
      cases col with
      | nullable inner mask =>
        simp only [Col.value, Col.cell]
        split
        case isTrue => rfl
        case isFalse => exact encodePlan_cell h hs index i

/-! ### The staging of a column -/

section Column

variable {G : Engine} {p q : Owner F} {c n pos : ℕ}

/-- The first `n` rows of a column are staged, and the other cells are as they were. -/
structure WroteColumn (G : Engine) (p q : Owner F) (c n : ℕ) (cell : ℕ → Option (Datum F)) :
    Prop where
  ok : q.Ok G
  lasting : q.lasting = p.lasting
  rows : q.stagedRows = p.stagedRows
  failed : q.stageFailed = p.stageFailed
  here : ∀ i < n, q.read G c i = some (cell i)
  elsewhere : ∀ c' r', ¬ (c' = c ∧ r' < n) → q.read G c' r' = p.read G c' r'

/-- A staging of `n` rows in one chunk. -/
structure Slice (G : Engine) (p : Owner F) (n : ℕ) : Prop where
  ok : p.Ok G
  closed : p.closed = false
  pos : 0 < n
  rows : p.stagedRows = n
  size : n ≤ G.size

theorem Slice.staged (h : Slice G p n) : 0 < p.staged.length := by
  have : 0 / G.size < G.chunks n := G.div_lt_chunks h.pos
  rw [Nat.zero_div] at this
  exact Nat.lt_of_lt_of_le this (h.rows ▸ h.ok.deep)

theorem Slice.range (h : Slice G p n) (hc : c < p.types.length) {length : ℕ}
    (hl : pos + n ≤ length) : p.stageRange G c length pos n = true :=
  Owner.stageRange_iff.mpr ⟨h.closed, List.length_pos_iff.mp h.staged, hc, h.pos, by simp [h.rows],
    h.size, hl⟩

theorem Slice.slot (h : Slice G p n) (hc : c < p.types.length) {i : ℕ} (hi : i < n) :
    p.slot c i = true :=
  Owner.slot_iff.mpr ⟨h.closed, hc, h.rows ▸ hi⟩

theorem WroteColumn.slice {m : ℕ} {cell : ℕ → Option (Datum F)} (h : Slice G p n)
    (hw : WroteColumn G p q c m cell) : Slice G q n :=
  ⟨hw.ok, (Owner.closed_of_lasting hw.lasting).trans h.closed, h.pos, hw.rows.trans h.rows, h.size⟩

/-- A Bigarray of the kind of its column is copied. -/
theorem stageBlit_wrote (h : Slice G p n) {ba : Owner.Bigarray F} {s : Scalar} (cell : ℕ → Datum F)
    (hl : pos + n ≤ ba.data.length) (ht : p.types[c]? = some (Scalar.nativeId s))
    (hkind : Owner.stageKind (Scalar.nativeId s) = some ba.kind)
    (hel : ∀ i x, ba.data[i]? = some x →
      Owner.elementDatum (Scalar.nativeId s) ba.kind x = some (cell i))
    (hfresh : ∀ i < n, ∃ x, p.read G c i = some (some x)) :
    WroteColumn G p (p.stageBlit G c ba pos n) c n fun i => some (cell (pos + i)) := by
  have hc := (List.getElem?_eq_some_iff.mp ht).1
  have htype : p.typeOf c = Scalar.nativeId s := typeOf_of_types ht
  obtain ⟨v, hv⟩ := h.ok.exists_vector h.staged hc
  -- the range and the kind are right, so that the elements are copied
  rw [Owner.stageBlit, if_neg (by simp [h.range hc hl]), if_neg (by simp [htype, hkind])]
  refine ⟨h.ok.onVector h.staged hc, Owner.lasting_onVector, Owner.stagedRows_onVector,
    Owner.stageFailed_onVector, fun i hi => ?_, fun c' r' hne => ?_⟩
  -- a row of the slice has the element; it was valid before, and stays so
  · have hi' : i < G.size := Nat.lt_of_lt_of_le hi h.size
    have hdata : pos + i < ba.data.length := by omega
    obtain ⟨x, hx⟩ := hfresh i hi
    have hvalid : v.valid i = true := by
      rw [Owner.read, Nat.div_eq_of_lt hi', Nat.mod_eq_of_lt hi', hv] at hx
      by_contra hvalid
      simp [Vector.cell, hvalid] at hx
    rw [Owner.read_onVector hv, if_pos ⟨Nat.div_eq_of_lt hi', rfl⟩, Nat.mod_eq_of_lt hi', htype]
    simp only [Vector.cell, hvalid, if_true, hi, List.getElem?_eq_getElem hdata, Option.bind_some,
      hel _ _ (List.getElem?_eq_getElem hdata), Option.getD_some]
  -- other columns and later rows keep their cells
  · rw [Owner.read_onVector hv]
    split
    case isFalse => rfl
    case isTrue hk =>
      obtain ⟨hk, rfl⟩ := hk
      have hr : r' < G.size := by
        by_contra hr
        have := Nat.div_pos (Nat.not_lt.mp hr) G.size_pos
        omega
      have hr' : ¬ r' < n := fun hlt => hne ⟨rfl, hlt⟩
      rw [Owner.read, hk, hv, Nat.mod_eq_of_lt hr]
      simp [Vector.cell, hr']

theorem WroteColumn.trans {q' : Owner F} {cell cell' : ℕ → Option (Datum F)}
    (h : WroteColumn G p q c n cell) (h' : WroteColumn G q q' c n cell') :
    WroteColumn G p q' c n cell' where
  ok := h'.ok
  lasting := h'.lasting.trans h.lasting
  rows := h'.rows.trans h.rows
  failed := h'.failed.trans h.failed
  here := h'.here
  elsewhere c' r' hne := (h'.elsewhere c' r' hne).trans (h.elsewhere c' r' hne)

/-- A mask makes cells NULL. -/
theorem stageMask_wrote (h : Slice G p n) {mask : List (BitVec 8)} {cell : ℕ → Option (Datum F)}
    (hl : pos + n ≤ mask.length) (hc : c < p.types.length)
    (hcell : ∀ i < n, p.read G c i = some (cell i)) :
    WroteColumn G p (p.stageMask G c mask pos n) c n fun i =>
      if mask[pos + i]? = some 0 then none else cell i := by
  obtain ⟨v, hv⟩ := h.ok.exists_vector h.staged hc
  rw [Owner.stageMask, if_neg (by simp [h.range hc hl])]
  refine ⟨h.ok.onVector h.staged hc, Owner.lasting_onVector, Owner.stagedRows_onVector,
    Owner.stageFailed_onVector, fun i hi => ?_, fun c' r' hne => ?_⟩
  · have hi' : i < G.size := Nat.lt_of_lt_of_le hi h.size
    have hx := hcell i hi
    rw [Owner.read, Nat.div_eq_of_lt hi', Nat.mod_eq_of_lt hi', hv] at hx
    rw [Owner.read_onVector hv, if_pos ⟨Nat.div_eq_of_lt hi', rfl⟩, Nat.mod_eq_of_lt hi']
    simp only [Option.map_some, Option.some.injEq] at hx
    -- a zero makes the cell NULL, and anything else leaves it
    by_cases hm : mask[pos + i]? = some 0
    · simp [Vector.cell, hi, hm]
    · have hm' : ¬ (i < n ∧ mask[pos + i]? = some 0) := fun h => hm h.2
      simp only [Vector.cell, if_neg hm, if_neg hm', ← hx]
  · rw [Owner.read_onVector hv]
    split
    case isFalse => rfl
    case isTrue hk =>
      obtain ⟨hk, rfl⟩ := hk
      have hr : r' < G.size := by
        by_contra hr
        have := Nat.div_pos (Nat.not_lt.mp hr) G.size_pos
        omega
      have hr' : ¬ r' < n := fun hlt => hne ⟨rfl, hlt⟩
      rw [Owner.read, hk, hv, Nat.mod_eq_of_lt hr]
      simp [Vector.cell, hr']

/-- The text of a row, or NULL. -/
def stageText (G : Engine) (c : ℕ) (text : ℕ → Option (List UInt8)) (p : Owner F) (i : ℕ) : Owner F :=
  match text i with
  | none => p.stageNull G c i
  | some bytes => p.stageString G c i bytes

theorem stageText_masked (mask : List (BitVec 8)) (texts : List (List UInt8)) :
    stageText (F := F) G c (fun i =>
      if mask[pos + i]? = some 0 then none else some (texts[pos + i]?.getD [])) =
      fun p i => if mask[pos + i]? = some 0 then p.stageNull G c i
        else p.stageString G c i (texts[pos + i]?.getD []) := by
  funext p i
  rw [stageText]
  split_ifs <;> rfl

theorem Spoiled.stageText {message : String} (h : Spoiled G p q message)
    (text : ℕ → Option (List UInt8)) (i : ℕ) :
    Appender.stageText G c text q i = q := by
  have hs : q.slot c i = false := by simp [Owner.slot, h.rows]
  unfold Appender.stageText
  cases text i <;> simp [Owner.stageNull, Owner.write, Owner.stageString, hs]

/-- The first rows of a column are staged, or spoiled by text that is not valid. -/
def StagedColumn (G : Engine) (p q : Owner F) (c n : ℕ) (cell : ℕ → Option (Datum F)) : Prop :=
  ((∀ i < n, (cell i).bind (Datum.invalid G) = none) ∧ WroteColumn G p q c n cell) ∨
  ((∃ i < n, (cell i).bind (Datum.invalid G) ≠ none) ∧ ∃ message, Spoiled G p q message)

theorem stageText_fold (h : Slice G p n) {s : Scalar} (hs : Ty.ofScalar s = .bytes)
    (ht : p.types[c]? = some (Scalar.nativeId s)) (text : ℕ → Option (List UInt8))
    (hfresh : ∀ i < n, ∃ x, p.read G c i = some (some x)) {m : ℕ} (hm : m ≤ n) :
    StagedColumn G p ((List.range m).foldl (stageText G c text) p) c m fun i =>
      (text i).map fun b => ⟨s, hs ▸ b⟩ := by
  induction m with
  | zero => exact .inl ⟨by simp, h.ok, rfl, rfl, rfl, by simp, fun _ _ _ => rfl⟩
  | succ m ih =>
    rw [List.range_succ, List.foldl_append]
    obtain ⟨hvalid, hw⟩ | ⟨⟨i, hi, hinvalid⟩, message, hspoiled⟩ := ih (by omega)
    -- once a text has been refused nothing more is staged
    case inr =>
      refine .inr ⟨⟨i, by omega, hinvalid⟩, message, ?_⟩
      rw [List.foldl_cons, List.foldl_nil, hspoiled.stageText]
      exact hspoiled
    case inl =>
      set q := (List.range m).foldl (stageText G c text) p
      have hslice : Slice G q n := hw.slice h
      have hq : q.types[c]? = some (Scalar.nativeId s) := by
        rw [Owner.types_of_lasting hw.lasting, ht]
      have hslot := hslice.slot (List.getElem?_eq_some_iff.mp hq).1 (i := m) (by omega)
      obtain ⟨x, hx⟩ := hfresh m (by omega)
      rw [← hw.elsewhere _ _ (by omega)] at hx
      -- the next text, as a row of one column would be staged
      have hone : Took G q (stageText G c text q m) c m [(text m).map fun b => ⟨s, hs ▸ b⟩] := by
        rw [stageText]
        cases text m with
        | none =>
          exact Wrote.write hslice.ok Owner.cell_setRowInvalid_of_ne
            (Owner.read_stageNull hslice.ok hslot)
        | some bytes =>
          have := took_stageBase hslice.ok (hs ▸ bytes) (typeOf_of_types hq) hslot hx
          cases s <;> first | cases hs; done | exact this
      have hrow : rowInvalid G [(text m).map fun b => (⟨s, hs ▸ b⟩ : Datum F)] =
          ((text m).map fun b => (⟨s, hs ▸ b⟩ : Datum F)).bind (Datum.invalid G) := by
        cases h : ((text m).map fun b => (⟨s, hs ▸ b⟩ : Datum F)).bind (Datum.invalid G) <;>
          simp [rowInvalid, h]
      rw [Took, hrow] at hone
      rw [List.foldl_cons, List.foldl_nil]
      cases hm' : ((text m).map fun b => (⟨s, hs ▸ b⟩ : Datum F)).bind (Datum.invalid G) with
      -- it is refused
      | some message =>
        rw [hm'] at hone
        exact .inr ⟨⟨m, by omega, by rw [hm']; simp⟩, message, hone.ok,
          hone.lasting.trans hw.lasting, hone.rows, hone.failed⟩
      -- it is written after the others, which stay
      | none =>
        rw [hm'] at hone
        refine .inl ⟨fun i hi => ?_, hone.ok, hone.lasting.trans hw.lasting,
          hone.rows.trans hw.rows, hone.failed.trans hw.failed, fun i hi => ?_, fun c' r' hne => ?_⟩
        · obtain hlt | rfl := Nat.lt_succ_iff_lt_or_eq.mp hi
          · exact hvalid i hlt
          · exact hm'
        · obtain hlt | rfl := Nat.lt_succ_iff_lt_or_eq.mp hi
          · rw [hone.elsewhere _ _ (by omega)]
            exact hw.here i hlt
          · exact hone.here 0 _ rfl
        · rw [hone.elsewhere _ _ (by simp; omega), hw.elsewhere _ _ (by omega)]

theorem getD_of_some {α : Type} {d : List α} {i : ℕ} {x y : α} (h : d[i]? = some x) :
    d[i]?.getD y = x := by
  rw [h, Option.getD_some]

theorem invalid_of_ne {d : Datum F} (h : d.scalar ≠ .string) : Datum.invalid G d = none := by
  rcases d with ⟨s, v⟩
  cases s
  case string => exact absurd rfl h
  all_goals rfl

/-- A Bigarray has no text. -/
theorem stageBlit_staged (h : Slice G p n) (ba : Owner.Bigarray F) (s : Scalar)
    (value : ℕ → (Ty.ofScalar s).Value F) (hs : s ≠ .string) (hl : pos + n ≤ ba.data.length)
    (ht : p.types[c]? = some (Scalar.nativeId s))
    (hkind : Owner.stageKind (Scalar.nativeId s) = some ba.kind)
    (hel : ∀ i x, ba.data[i]? = some x →
      Owner.elementDatum (Scalar.nativeId s) ba.kind x = some ⟨s, value i⟩)
    (hfresh : ∀ i < n, ∃ x, p.read G c i = some (some x)) :
    StagedColumn G p (p.stageBlit G c ba pos n) c n fun i => some ⟨s, value (pos + i)⟩ :=
  .inl ⟨fun _ _ => invalid_of_ne hs,
    stageBlit_wrote h (fun i => ⟨s, value i⟩) hl ht hkind hel hfresh⟩

/-- A column without a mask. -/
theorem stageColumn_base {t : Ty} (col : Col F t) (h : Slice G p n) {s : Scalar}
    (hs : Ty.ofScalar s = t) (hscalar : s = col.scalar) (hl : pos + n ≤ col.length)
    (ht : p.types[c]? = some (Scalar.nativeId s))
    (hfresh : ∀ i < n, ∃ x, p.read G c i = some (some x)) :
    StagedColumn G p (stageColumn G col c pos n p) c n fun i => col.cell (pos + i) := by
  cases col with
  | nullable inner mask => cases s <;> cases hs
  -- text is staged row by row, and a Bigarray with one copy
  | strings s' h' texts =>
    cases hscalar
    exact stageText_fold h hs ht (fun i => some (texts[pos + i]?.getD [])) hfresh (Nat.le_refl n)
  | int64 s' h' d =>
    cases hscalar
    refine stageBlit_staged h ⟨.int64, d⟩ s' (fun i => h' ▸ (Col.int64 (F := F) s' h' d).value i)
      ?_ hl ht ?_ ?_ hfresh
    · rintro rfl
      cases h'
    · cases s' <;> first | cases h'; done | rfl
    · intro i x hx
      have : (Col.int64 (F := F) s' h' d).value i = x := getD_of_some hx
      rw [this]
      cases s' <;> first | cases h'; done | rfl
  | int32 s' h' d =>
    cases hscalar
    refine stageBlit_staged h ⟨.int32, d⟩ s' (fun i => h' ▸ (Col.int32 (F := F) s' h' d).value i)
      ?_ hl ht ?_ ?_ hfresh
    · rintro rfl
      cases h'
    · cases s' <;> first | cases h'; done | rfl
    · intro i x hx
      have : (Col.int32 (F := F) s' h' d).value i = x := getD_of_some hx
      rw [this]
      cases s' <;> first | cases h'; done | rfl
  | int16 d =>
    cases hscalar
    refine stageBlit_staged h ⟨.sint16, d⟩ .int16 (Col.int16 (F := F) d).value (by decide) hl ht rfl
      (fun i x hx => ?_) hfresh
    have : (Col.int16 (F := F) d).value i = x := getD_of_some hx
    rw [this]
    rfl
  | int8 d =>
    cases hscalar
    refine stageBlit_staged h ⟨.sint8, d⟩ .int8 (Col.int8 (F := F) d).value (by decide) hl ht rfl
      (fun i x hx => ?_) hfresh
    have : (Col.int8 (F := F) d).value i = x := getD_of_some hx
    rw [this]
    rfl
  | bool d =>
    cases hscalar
    refine stageBlit_staged h ⟨.uint8, d⟩ .bool (Col.bool (F := F) d).value (by decide) hl ht rfl
      (fun i x hx => ?_) hfresh
    have : (Col.bool (F := F) d).value i = Owner.nonzero (w := 8) x :=
      congrArg Owner.nonzero (getD_of_some hx)
    rw [this]
    rfl
  | float64 d =>
    cases hscalar
    refine stageBlit_staged h ⟨.float64, d⟩ .float64 (Col.float64 (F := F) d).value (by decide) hl ht rfl
      (fun i x hx => ?_) hfresh
    have : (Col.float64 (F := F) d).value i = x := getD_of_some hx
    rw [this]
    rfl
  | float32 d =>
    cases hscalar
    refine stageBlit_staged h ⟨.float32, d⟩ .float32 (Col.float32 (F := F) d).value (by decide) hl ht rfl
      (fun i x hx => ?_) hfresh
    have : (Col.float32 (F := F) d).value i = x := getD_of_some hx
    rw [this]
    rfl

/-- A Bigarray under a mask. -/
theorem StagedColumn.mask (h : Slice G p n) {cell : ℕ → Option (Datum F)} {mask : List (BitVec 8)}
    (hl : pos + n ≤ mask.length) (hc : c < p.types.length)
    (hvalid : ∀ i < n, (cell i).bind (Datum.invalid G) = none) (hw : WroteColumn G p q c n cell) :
    StagedColumn G p (q.stageMask G c mask pos n) c n fun i =>
      if mask[pos + i]? = some 0 then none else cell i := by
  refine .inl ⟨fun i hi => ?_, hw.trans (stageMask_wrote (hw.slice h) hl
    (Owner.types_of_lasting hw.lasting ▸ hc) hw.here)⟩
  dsimp only
  split
  · rfl
  · exact hvalid i hi

/-- Only text can be invalid. -/
theorem StagedColumn.of_bigarray {cell : ℕ → Datum F} (h : ∀ i, (cell i).scalar ≠ .string)
    (hs : StagedColumn G p q c n fun i => some (cell i)) :
    (∀ i < n, (some (cell i)).bind (Datum.invalid G) = none) ∧
      WroteColumn G p q c n fun i => some (cell i) := by
  obtain hs | ⟨⟨i, -, hi⟩, -⟩ := hs
  · exact hs
  · exact absurd (invalid_of_ne (h i)) hi

variable (pos) in
/-- **A column** with an identity codec. -/
theorem stageColumn_staged (h : Slice G p n) {t : Ty} {codec : Codec F E t} {col : Col F t}
    (hc : codec.custom = false) (hs : codec.scalar = col.scalar) (hl : pos + n ≤ col.length)
    (hm : pos + n ≤ col.maskLength) (ht : p.types[c]? = some (Scalar.nativeId codec.scalar))
    (hfresh : ∀ i < n, ∃ x, p.read G c i = some (some x)) :
    StagedColumn G p (stageColumn G col c pos n p) c n fun i => col.cell (pos + i) := by
  cases codec with
  | nonNull plan =>
    cases plan with
    -- a custom codec does not get here
    | plan s encode => cases hc
    | identity s h' => exact stageColumn_base col h h' hs hl ht hfresh
  | nullable plan =>
    cases plan with
    | plan s encode => cases hc
    | identity s h' =>
      have hlt := (List.getElem?_eq_some_iff.mp ht).1
      cases col with
      | nullable inner mask =>
        -- the column under the mask is staged first
        have hbase := stageColumn_base inner h h' hs hl ht hfresh
        cases inner with
        | nullable inner' mask' => cases s <;> cases h'
        | strings s' h'' texts =>
          -- text under a NULL is left out, and not validated
          have hfold := stageText_fold h h' ht (fun i =>
            if mask[pos + i]? = some 0 then none else some (texts[pos + i]?.getD [])) hfresh
            (Nat.le_refl n)
          rw [stageText_masked] at hfold
          cases hs
          refine cast ?_ hfold
          congr 1
          funext i
          simp only [Col.cell]
          split_ifs <;> rfl
        -- a Bigarray cannot be refused, and the mask comes after it
        | int64 s' h'' d =>
          obtain ⟨hv, hw⟩ := hbase.of_bigarray fun i hi => by
            have : s' = .string := hi
            cases this
            cases h''
          exact StagedColumn.mask h hm hlt hv hw
        | int32 s' h'' d =>
          obtain ⟨hv, hw⟩ := hbase.of_bigarray fun i hi => by
            have : s' = .string := hi
            cases this
            cases h''
          exact StagedColumn.mask h hm hlt hv hw
        | int16 d | int8 d | bool d | float64 d | float32 d =>
          obtain ⟨hv, hw⟩ := hbase.of_bigarray fun i hi => by cases hi
          exact StagedColumn.mask h hm hlt hv hw

/-- Nothing is staged after the batch is spoiled. -/
theorem Spoiled.stageBlit {message : String} (h : Spoiled G p q message) (hn : 0 < n)
    (ba : Owner.Bigarray F) : q.stageBlit G c ba pos n = q := by
  have hr : q.stageRange G c ba.data.length pos n = false := by
    have : ¬ n ≤ 0 := by omega
    simp [Owner.stageRange, h.rows, this]
  rw [Owner.stageBlit, hr, if_pos (by rfl), Owner.stageFail, h.failed, if_pos (by rfl)]

theorem Spoiled.stageMask {message : String} (h : Spoiled G p q message) (hn : 0 < n)
    (mask : List (BitVec 8)) : q.stageMask G c mask pos n = q := by
  have hr : q.stageRange G c mask.length pos n = false := by
    have : ¬ n ≤ 0 := by omega
    simp [Owner.stageRange, h.rows, this]
  rw [Owner.stageMask, hr, if_pos (by rfl), Owner.stageFail, h.failed, if_pos (by rfl)]

theorem Spoiled.fold {message : String} (h : Spoiled G p q message)
    (text : ℕ → Option (List UInt8)) (rows : List ℕ) :
    rows.foldl (Appender.stageText G c text) q = q := by
  induction rows with
  | nil => rfl
  | cons i rows ih => rw [List.foldl_cons, h.stageText, ih]

theorem Spoiled.stageColumn {message : String} (h : Spoiled G p q message) (hn : 0 < n) {t : Ty}
    (col : Col F t) : Appender.stageColumn G col c pos n q = q := by
  induction col with
  | int64 | int32 | int16 | int8 | bool | float64 | float32 => exact h.stageBlit hn _
  | strings s h' texts => exact h.fold (fun i => some (texts[pos + i]?.getD [])) _
  | @nullable t inner mask ih =>
    cases inner with
    | strings s h' texts =>
      rw [Appender.stageColumn, ← stageText_masked]
      exact h.fold _ _
    | _ => exact (congrArg (fun p => p.stageMask G c mask pos n) ih).trans (h.stageMask hn mask)

theorem Spoiled.stageColumns {message : String} (h : Spoiled G p q message) (hn : 0 < n)
    {ts : List Ty} (bulk : Bulk F ts) : Appender.stageColumns G bulk c pos n q = q := by
  induction bulk generalizing c with
  | nil => rfl
  | cons col bulk ih => rw [Appender.stageColumns, h.stageColumn hn, ih]

end Column

/-! ### The staging of a slice -/

/-- What a row is to the engine. -/
def Bulk.cells : {ts : List Ty} → Bulk F ts → ℕ → List (Option (Datum F))
  | _, .nil, _ => []
  | _, .cons col bulk, i => col.cell i :: bulk.cells i

section Slice

variable {G : Engine} {a : App F} {p q q' : Owner F} {c n pos rows : ℕ}

/-- What the checks of a column establish. -/
theorem checkColumn_ok {t : Ty} {codec : Codec F E t} {col : Col F t}
    (h : checkColumn a codec col c rows = .ok ()) :
    col.length = rows ∧ col.maskLength = rows ∧ codec.custom = false ∧
      a.types[c]?.getD Decode.invalid = Scalar.nativeId col.scalar := by
  unfold checkColumn at h
  dsimp only at h
  split_ifs at h with h1 h2 h3 h4
  all_goals exact ⟨not_not.mp h1, not_not.mp h2, by simpa using h3, not_not.mp h4⟩

theorem checkColumnsBulk_cons {t : Ty} {ts : List Ty} {codec : Codec F E t} {fields : Fields F E ts}
    {col : Col F t} {bulk : Bulk F ts}
    (h : checkColumnsBulk a (.cons codec fields) (.cons col bulk) c rows = .ok ()) :
    checkColumn a codec col c rows = .ok () ∧
      checkColumnsBulk a fields bulk (c + 1) rows = .ok () := by
  rw [checkColumnsBulk] at h
  cases hc : checkColumn a codec col c rows with
  | error e => rw [hc] at h; cases h
  | ok u => exact ⟨rfl, by rwa [hc] at h⟩

/-- The first rows of the columns from `c` on are staged, and the columns before are as they were. -/
structure WroteSlice (G : Engine) (p q : Owner F) (c n : ℕ) (cells : ℕ → List (Option (Datum F))) :
    Prop where
  ok : q.Ok G
  lasting : q.lasting = p.lasting
  rows : q.stagedRows = p.stagedRows
  failed : q.stageFailed = p.stageFailed
  here : ∀ i < n, ∀ k x, (cells i)[k]? = some x → q.read G (c + k) i = some x
  before : ∀ c' r, c' < c → q.read G c' r = p.read G c' r

/-- The rows of a slice are staged, or spoiled by text that is not valid. -/
def StagedSlice (G : Engine) (p q : Owner F) (c n : ℕ) (cells : ℕ → List (Option (Datum F))) : Prop :=
  ((∀ i < n, rowInvalid G (cells i) = none) ∧ WroteSlice G p q c n cells) ∨
  ((∃ i < n, rowInvalid G (cells i) ≠ none) ∧ ∃ message, Spoiled G p q message)

theorem rowInvalid_cons (x : Option (Datum F)) (xs : List (Option (Datum F))) :
    rowInvalid G (x :: xs) = (x.bind (Datum.invalid G)).or (rowInvalid G xs) := by
  cases hx : x.bind (Datum.invalid G) <;> simp [rowInvalid, hx]

/-- **A slice is staged**, column by column, when the checks have passed. -/
theorem stageColumns_staged {ts : List Ty} {fields : Fields F E ts} {bulk : Bulk F ts}
    {p : Owner F} (h : Slice G p n) (hcheck : checkColumnsBulk a fields bulk c rows = .ok ())
    (ha : ∀ i id : ℕ, fields.ids[i]? = some id → a.types[c + i]? = some id)
    (hp : ∀ i id : ℕ, fields.ids[i]? = some id → p.types[c + i]? = some id)
    (hl : pos + n ≤ rows)
    (hfresh : ∀ i < n, ∀ c', c ≤ c' → c' < c + fields.ids.length →
      ∃ x, p.read G c' i = some (some x)) :
    StagedSlice G p (stageColumns G bulk c pos n p) c n fun i => bulk.cells (pos + i) := by
  induction fields generalizing p c with
  | nil =>
    cases bulk
    exact .inl ⟨fun _ _ => rfl, h.ok, rfl, rfl, rfl, by simp [Bulk.cells], fun _ _ _ => rfl⟩
  | cons codec fields ih =>
    cases bulk with
    | cons col bulk =>
      -- the check has seen the length, the mask and the type of each column
      obtain ⟨hcol, hrest⟩ := checkColumnsBulk_cons hcheck
      obtain ⟨hlen, hmask, hcustom, hid⟩ := checkColumn_ok hcol
      have ha0 : a.types[c]? = some (Scalar.nativeId codec.scalar) := ha 0 _ rfl
      have hp0 : p.types[c]? = some (Scalar.nativeId codec.scalar) := hp 0 _ rfl
      rw [ha0, Option.getD_some] at hid
      have hstage := stageColumn_staged pos h hcustom (nativeId_injective hid)
        (by omega) (by omega) hp0 fun i hi => hfresh i hi c (Nat.le_refl c) (by simp [Fields.ids])
      rw [stageColumns]
      obtain ⟨hvalid, hw⟩ | ⟨⟨i, hi, hinvalid⟩, message, hspoiled⟩ := hstage
      -- the first column is refused, and the others are left out
      case inr =>
        rw [hspoiled.stageColumns h.pos]
        refine .inr ⟨⟨i, hi, ?_⟩, message, hspoiled⟩
        obtain ⟨m, hm⟩ := Option.ne_none_iff_exists'.mp hinvalid
        dsimp only at hm
        simp [Bulk.cells, rowInvalid_cons, hm]
      -- the other columns are staged over the first one, whose cells stay
      case inl =>
        have hslice := hw.slice h
        have htypes := Owner.types_of_lasting hw.lasting
        have htail := ih (c := c + 1) hslice hrest
          (fun i id hid => by
            rw [Nat.add_right_comm, Nat.add_assoc]
            exact ha (i + 1) id hid)
          (fun i id hid => by
            rw [htypes, Nat.add_right_comm, Nat.add_assoc]
            exact hp (i + 1) id hid)
          fun i hi c' hc hc' => by
            rw [hw.elsewhere _ _ (by omega)]
            exact hfresh i hi c' (by omega) (by simp [Fields.ids]; omega)
        obtain ⟨hvalids, hws⟩ | ⟨⟨i, hi, hinvalid⟩, message, hspoiled⟩ := htail
        case inr =>
          refine .inr ⟨⟨i, hi, ?_⟩, message, hspoiled.ok, hspoiled.lasting.trans hw.lasting,
            hspoiled.rows, hspoiled.failed⟩
          have hv := hvalid i hi
          dsimp only at hv
          simpa only [Bulk.cells, rowInvalid_cons, hv, Option.none_or] using hinvalid
        case inl =>
          refine .inl ⟨fun i hi => ?_, hws.ok, hws.lasting.trans hw.lasting,
            hws.rows.trans hw.rows, hws.failed.trans hw.failed, fun i hi k x hx => ?_,
            fun c' r hc => ?_⟩
          · have hv := hvalid i hi
            dsimp only at hv
            simpa only [Bulk.cells, rowInvalid_cons, hv, Option.none_or] using hvalids i hi
          · cases k with
            | zero =>
              refine (hws.before c i (Nat.lt_succ_self c)).trans ((hw.here i hi).trans ?_)
              simpa [Bulk.cells] using hx
            | succ k =>
              rw [show c + (k + 1) = c + 1 + k by omega]
              exact hws.here i hi k x (by simpa [Bulk.cells] using hx)
          · rw [hws.before _ _ (by omega), hw.elsewhere _ _ (by omega)]

end Slice

/-! ### The slices -/

section Slices

variable (G : Engine)

theorem slices_eq (rows d k : ℕ) (h : k + d = G.chunks rows) :
    G.slices rows (k * G.size) =
      (List.range' k d).map fun k => (k * G.size, min G.size (rows - k * G.size)) := by
  have hpos := G.size_pos
  -- the chunks are as many as needed to cover the rows
  have hle := Nat.div_mul_le_self (rows + G.size - 1) G.size
  have hlt := Nat.lt_div_mul_add hpos (a := rows + G.size - 1)
  rw [← Engine.chunks] at hle hlt
  induction d generalizing k with
  | zero =>
    rw [Nat.add_zero] at h
    rw [Engine.slices, if_pos (by rw [h]; omega)]
    rfl
  | succ d ih =>
    have hk : (k + 1) * G.size ≤ G.chunks rows * G.size := Nat.mul_le_mul_right _ (by omega)
    rw [Nat.succ_mul] at hk
    rw [Engine.slices, if_neg (by omega), List.range'_succ, List.map_cons]
    dsimp only
    -- the last slice may be shorter; all others have the size of a chunk
    cases d with
    | zero =>
      rw [Engine.slices, if_pos]
      · rfl
      · have : (k + 1) * G.size = G.chunks rows * G.size := by rw [← h]
        rw [Nat.succ_mul] at this
        omega
    | succ d =>
      have hk' : (k + 2) * G.size ≤ G.chunks rows * G.size := Nat.mul_le_mul_right _ (by omega)
      have h2 : (k + 2) * G.size = k * G.size + 2 * G.size := Nat.add_mul _ _ _
      have hrest := ih (k + 1) (by omega)
      rw [Nat.succ_mul] at hrest
      rw [← hrest, show k * G.size + min G.size (rows - k * G.size) = k * G.size + G.size by omega]

theorem slices_zero (rows : ℕ) : G.slices rows 0 =
    (List.range (G.chunks rows)).map fun k => (k * G.size, min G.size (rows - k * G.size)) := by
  have := slices_eq G rows (G.chunks rows) 0 (Nat.zero_add _)
  rwa [Nat.zero_mul, ← List.range_eq_range'] at this

/-- The slices of the rows are their chunks. -/
theorem slices_batches {α : Type} (rows : List α) :
    (G.slices rows.length 0).map (fun x => (rows.drop x.1).take x.2) = G.batches rows := by
  rw [slices_zero, List.map_map, Engine.batches]
  refine List.map_congr_left fun k _ => ?_
  simp only [Function.comp_apply]
  rw [← List.length_drop, ← List.take_take, List.take_length]

/-- **The slices** cover the rows without gap or overlap. -/
theorem slices_cover (rows : ℕ) :
    (G.slices rows 0).flatMap (fun x => List.range' x.1 x.2) = List.range rows ∧
      ∀ x ∈ G.slices rows 0, 0 < x.2 ∧ x.2 ≤ G.size ∧ x.1 + x.2 ≤ rows := by
  have hlen : (List.range rows).length = rows := List.length_range
  refine ⟨?_, fun x hx => ?_⟩
  -- the slices are those that a list of rows is cut into
  · have h := G.flatten_batches (List.range rows)
    rw [← slices_batches, hlen] at h
    rw [List.flatMap_def]
    refine Eq.trans ?_ h
    congr 1
    refine List.map_congr_left fun x hx => ?_
    rw [slices_zero] at hx
    obtain ⟨k, -, rfl⟩ := List.mem_map.mp hx
    refine List.ext_getElem (by simp) fun i hi hi' => ?_
    simp
  · rw [slices_zero] at hx
    obtain ⟨k, hk, rfl⟩ := List.mem_map.mp hx
    have hk := List.mem_range.mp hk
    have hpos := G.size_pos
    have hle := Nat.div_mul_le_self (rows + G.size - 1) G.size
    rw [← Engine.chunks] at hle
    have hk' : (k + 1) * G.size ≤ G.chunks rows * G.size := Nat.mul_le_mul_right _ (by omega)
    rw [Nat.succ_mul] at hk'
    dsimp only
    omega

end Slices

/-! ### The loop -/

section Loop

variable {G : Engine} {amb : Ambient E} {s t : St F} {p q : Owner F} {k pos n rows c : ℕ}

theorem Ok.stageColumn (h : p.Ok G) {t : Ty} (col : Col F t) :
    (Appender.stageColumn G col c pos n p).Ok G := by
  have hfold : ∀ (rows : List ℕ) (text : ℕ → Option (List UInt8)) {p : Owner F}, p.Ok G →
      (rows.foldl (stageText G c text) p).Ok G := by
    intro rows text
    induction rows with
    | nil => exact fun h => h
    | cons i rows ih =>
      intro p h
      refine ih ?_
      unfold stageText
      split
      · exact h.stageNull
      · exact h.stageString _
  induction col with
  | int64 | int32 | int16 | int8 | bool | float64 | float32 => exact h.stageBlit _ _ _
  | strings s h' texts => exact hfold _ (fun i => some (texts[pos + i]?.getD [])) h
  | @nullable t inner mask ih =>
    cases inner with
    | strings s h' texts =>
      rw [Appender.stageColumn, ← stageText_masked]
      exact hfold _ _ h
    | _ => exact ih.stageMask _ _ _

theorem Ok.stageColumns {ts : List Ty} (h : p.Ok G) (bulk : Bulk F ts) :
    (Appender.stageColumns G bulk c pos n p).Ok G := by
  induction bulk generalizing c p with
  | nil => exact h
  | cons col bulk ih => exact ih (Ok.stageColumn h col)

theorem lasting_stageColumn {t : Ty} (col : Col F t) :
    (stageColumn G col c pos n p).lasting = p.lasting := by
  have hfold : ∀ (rows : List ℕ) (text : ℕ → Option (List UInt8)) (p : Owner F),
      (rows.foldl (stageText G c text) p).lasting = p.lasting := by
    intro rows text
    induction rows with
    | nil => exact fun _ => rfl
    | cons i rows ih =>
      intro p
      refine (ih _).trans ?_
      unfold stageText
      split
      · exact Owner.lasting_write
      · exact Owner.lasting_stageString _
  induction col with
  | int64 | int32 | int16 | int8 | bool | float64 | float32 => exact Owner.lasting_stageBlit _ _ _
  | strings s h' texts => exact hfold _ (fun i => some (texts[pos + i]?.getD [])) p
  | @nullable t inner mask ih =>
    cases inner with
    | strings s h' texts =>
      rw [stageColumn, ← stageText_masked]
      exact hfold _ _ p
    | _ => exact (Owner.lasting_stageMask _ _ _).trans ih

theorem lasting_stageColumns {ts : List Ty} (bulk : Bulk F ts) :
    (stageColumns G bulk c pos n p).lasting = p.lasting := by
  induction bulk generalizing c p with
  | nil => rfl
  | cons col bulk ih => exact ih.trans (lasting_stageColumn col)

/-- What a slice does to the native appender. -/
def sliceNative (G : Engine) (amb : Ambient E) (stage : ℕ → ℕ → Owner F → Owner F) (k pos n : ℕ)
    (p : Owner F) : Owner F :=
  (stage pos n (p.stageBegin G (amb.grant k) n)).appendStaged G (amb.answer k)

/-- The chunk of a slice. -/
def Bulk.chunk {ts : List Ty} (bulk : Bulk F ts) (pos n : ℕ) : List (List (Option (Datum F))) :=
  (List.range' pos n).map bulk.cells

theorem bulk_cells_length {ts : List Ty} (fields : Fields F E ts) (bulk : Bulk F ts) (i : ℕ) :
    (bulk.cells i).length = fields.ids.length := by
  induction fields with
  | nil =>
    cases bulk
    rfl
  | cons codec fields ih =>
    cases bulk with
    | cons col bulk => simp [Bulk.cells, Fields.ids, ih]

variable (amb k) in
/-- **A slice** either fails, or sends its rows. -/
theorem sliceNative_cases {a : App F} {ts : List Ty} {fields : Fields F E ts} {bulk : Bulk F ts}
    (h : p.Ok G) (hclosed : p.closed = false)
    (hcheck : checkColumnsBulk a fields bulk 0 rows = .ok ()) (ha : a.types = fields.ids)
    (hp : p.types = fields.ids) (hn : 0 < n) (hsize : n ≤ G.size) (hl : pos + n ≤ rows) :
    ((sliceNative G amb (stageColumns G bulk 0) k pos n p).status ≠ none ∧
      (p.status ≠ none ∨ p.shortage G (amb.grant k) n ≠ none ∨
        (∃ i < n, rowInvalid G (bulk.cells (pos + i)) ≠ none) ∨ amb.answer k 0 ≠ .accepted)) ∨
    (p.status = none ∧ (sliceNative G amb (stageColumns G bulk 0) k pos n p).lasting =
      { p with received := p.received ++ [bulk.chunk pos n] }.lasting) := by
  -- a failure before the copy stays the answer
  have hfailed : ∀ {q : Owner F} {cause : Cause}, q.status = some cause →
      ((stageColumns G bulk 0 pos n q).appendStaged G (amb.answer k)).status ≠ none := by
    intro q cause hq
    rw [Owner.status_appendStaged ((Owner.status_of_lasting (lasting_stageColumns bulk)).trans hq)]
    simp
  rw [sliceNative]
  obtain ⟨hi, he⟩ | ⟨-, hs, m, hm, -, hlast, -⟩ | ⟨-, hs, hm, hok, hlast, hr, hf, hfresh⟩ :=
    Owner.stageBegin_cases h (amb.grant k) n
  · obtain ⟨cause, hcause⟩ := Option.isSome_iff_exists.mp (hi.resolve_left (by simp [hclosed]))
    exact .inl ⟨hfailed (by rw [he]; exact hcause), .inl (by simp [hcause])⟩
  · exact .inl ⟨hfailed (Owner.status_of_lasting hlast), .inr (.inl (by simp [hm]))⟩
  · have hslice : Slice G (p.stageBegin G (amb.grant k) n) n :=
      ⟨hok, (Owner.closed_of_lasting hlast).trans hclosed, hn, hr, hsize⟩
    obtain ⟨-, hw⟩ | ⟨hinvalid, message, hspoiled⟩ := stageColumns_staged (c := 0) hslice hcheck
      (fun i id hid => by rw [Nat.zero_add, ha, hid])
      (fun i id hid => by rw [Nat.zero_add, Owner.types_of_lasting hlast, hp, hid]) hl
      fun i hi c' _ hc => hfresh c' (by rw [hp]; omega) i hi
    -- a text has been refused
    case inr =>
      refine .inl ⟨?_, .inr (.inr (.inl hinvalid))⟩
      have hq := hspoiled.lasting.trans hlast
      rw [Owner.status_of_lasting (Owner.appendStaged_of_failed _
        ((Owner.closed_of_lasting hq).trans hclosed) hspoiled.failed),
        Owner.error_eq ((Owner.status_of_lasting hq).trans hs)]
      simp
    -- the rows are in the vectors, and go to the engine as one chunk
    case inl =>
      have hq := hw.lasting.trans hlast
      have hlen : (bulk.chunk pos n).length = n := by simp [Bulk.chunk]
      have happend := Owner.appendStaged_eq (bulk.chunk pos n) hw.ok (amb.answer k)
        ((Owner.closed_of_lasting hq).trans hclosed) (hw.failed.trans hf)
        ((Owner.status_of_lasting hq).trans hs) (by rw [hw.rows, hr, hlen])
        (fun row hrow => by
          obtain ⟨i, -, rfl⟩ := List.mem_map.mp hrow
          rw [Owner.types_of_lasting hq, hp]
          exact bulk_cells_length fields bulk i)
        fun r row hrow c x hx => by
          obtain ⟨hlt, rfl⟩ := List.getElem?_eq_some_iff.mp hrow
          have := hw.here r (hlen ▸ hlt) c x (by simpa [Bulk.chunk] using hx)
          rwa [Nat.zero_add] at this
      rw [Engine.batches_of_le _ _ (by rw [hlen]; exact hn) (by rw [hlen]; exact hsize)] at happend
      cases hanswer : amb.answer k 0 with
      | accepted =>
        refine .inr ⟨hs, happend.trans ?_⟩
        rw [deliver, hanswer]
        have := congrArg (fun o : Owner F =>
          { o with received := o.received ++ [bulk.chunk pos n], status := none }) hq
        refine Eq.trans this ?_
        rw [← hs]
        rfl
      | suppressed =>
        refine .inl ⟨?_, .inr (.inr (.inr (by simp)))⟩
        rw [Owner.status_of_lasting happend, deliver, hanswer]
        simp
      | failed message =>
        refine .inl ⟨?_, .inr (.inr (.inr (by simp)))⟩
        rw [Owner.status_of_lasting happend, deliver, hanswer]
        simp

theorem appendSlice_eq (stage : ℕ → ℕ → Owner F → Owner F) :
    appendSlice G amb stage k pos n s =
      match amb.before k with
      | .error cause => (.ok (.error cause), s)
      | .ok () =>
        match amb.interrupt k with
        | some e => (.error e, s.onNative (sliceNative G amb stage k pos n))
        | none => status (s.onNative (sliceNative G amb stage k pos n)) := by
  unfold appendSlice checked
  cases amb.before k with
  | error cause => rfl
  | ok u =>
    refine (Comp.bind_ok (t := s.onNative fun p => stage pos n (p.stageBegin G (amb.grant k) n))
      rfl).trans ?_
    cases hi : amb.interrupt k with
    | some e => exact Comp.bind_error (by simp [call, hi]; rfl)
    | none => exact Comp.bind_ok (a := ()) (by simp [call, hi]; rfl)

theorem result_ok {p : Owner F} : p.result = .ok () ↔ p.status = none := by
  unfold Owner.result
  cases p.status <;> simp

theorem appendSlice_ok {stage : ℕ → ℕ → Owner F → Owner F} :
    appendSlice G amb stage k pos n s = (.ok (.ok ()), t) ↔
      amb.before k = .ok () ∧ amb.interrupt k = none ∧
        (sliceNative G amb stage k pos n s.app.native).status = none ∧
        t = s.onNative (sliceNative G amb stage k pos n) := by
  rw [appendSlice_eq]
  cases amb.before k with
  | error cause => simp
  | ok u =>
    cases amb.interrupt k with
    | some e => simp
    | none =>
      change ((Except.ok (sliceNative G amb stage k pos n s.app.native).result :
        Except (Exn E) Result), s.onNative (sliceNative G amb stage k pos n)) = _ ↔ _
      simp only [Prod.mk.injEq, Except.ok.injEq, result_ok, true_and]
      rw [eq_comm (b := t)]

theorem sliceAll_cons {stage : ℕ → ℕ → Owner F → Owner F} {xs : List (ℕ × ℕ)} :
    sliceAll G amb stage k ((pos, n) :: xs) s = (.ok (.ok ()), t) ↔
      ∃ s', appendSlice G amb stage k pos n s = (.ok (.ok ()), s') ∧
        sliceAll G amb stage (k + 1) xs s' = (.ok (.ok ()), t) := by
  rw [sliceAll]
  match h : appendSlice G amb stage k pos n s with
  | (.ok (.ok ()), s') => simp [Comp.bind_ok h]
  | (.ok (.error cause), s') => simp [Comp.bind_ok h, pure, Comp.ret]
  | (.error e, s') => simp [Comp.bind_error h]

/-- What the loop needs of the native appender. -/
structure Ready (G : Engine) (ids : List ℕ) (p : Owner F) : Prop where
  ok : p.Ok G
  closed : p.closed = false
  types : p.types = ids

theorem Ready.slice {ids : List ℕ} (h : Ready G ids p) {ts : List Ty} {bulk : Bulk F ts} :
    (sliceNative G amb (stageColumns G bulk 0) k pos n p).Ok G :=
  (Ok.stageColumns (h.ok.stageBegin _ _) bulk).appendStaged _

variable {a : App F} {ts : List Ty} {fields : Fields F E ts} {bulk : Bulk F ts}

/-- **A loop that succeeds** has sent every slice. -/
theorem sliceAll_ok (hcheck : checkColumnsBulk a fields bulk 0 rows = .ok ())
    (ha : a.types = fields.ids) {xs : List (ℕ × ℕ)}
    (hxs : ∀ x ∈ xs, 0 < x.2 ∧ x.2 ≤ G.size ∧ x.1 + x.2 ≤ rows)
    (hs : Ready G fields.ids s.app.native)
    (h : sliceAll G amb (stageColumns G bulk 0) k xs s = (.ok (.ok ()), t)) :
    t.lasting = (s.onNative fun p =>
      { p with received := p.received ++ xs.map fun x => bulk.chunk x.1 x.2 }).lasting := by
  induction xs generalizing k s with
  | nil =>
    cases h
    simp [St.lasting, St.onNative, Owner.lasting]
  | cons x xs ih =>
    obtain ⟨hpos, hsize, hle⟩ := hxs x (List.mem_cons_self)
    obtain ⟨s', hslice, hrest⟩ := sliceAll_cons.mp h
    obtain ⟨-, -, hstatus, rfl⟩ := appendSlice_ok.mp hslice
    obtain ⟨hne, -⟩ | ⟨-, hsent⟩ := sliceNative_cases amb k hs.ok hs.closed hcheck
      ha hs.types hpos hsize hle
    · exact absurd hstatus hne
    · rw [ih (fun x hx => hxs x (List.mem_cons_of_mem _ hx))
        ⟨hs.slice, (Owner.closed_of_lasting hsent).trans hs.closed,
          (Owner.types_of_lasting hsent).trans hs.types⟩ hrest]
      refine (St.lasting_onNative (s := s) (t := s) rfl (Owner.lasting_received hsent _)).trans ?_
      simp [St.lasting, St.onNative, Owner.lasting]

/-- The allocations that a batch of rows needs are granted. -/
structure Ample (G : Engine) (grant : Grant) (rows : ℕ) : Prop where
  types : grant.types = true
  array : grant.array = true
  chunks : G.chunks rows ≤ grant.chunks

theorem Ample.shortage {grant : Grant} (h : Ample G grant rows) (hn : n ≤ rows) (p : Owner F) :
    p.shortage G grant n = none := by
  have hle : G.chunks n ≤ G.chunks rows := Nat.div_le_div_right (by omega)
  have := h.chunks
  have hfew : ¬ grant.chunks < G.chunks n - p.staged.length := by omega
  simp [Owner.shortage, h.types, h.array, hfew]

/-- An environment in which nothing goes wrong. -/
structure Calm (G : Engine) (amb : Ambient E) (rows : ℕ) (s : St F) : Prop where
  admission : admission amb s = .ok ()
  before : ∀ k, amb.before k = .ok ()
  grant : ∀ k, Ample G (amb.grant k) rows
  answer : ∀ k j, amb.answer k j = .accepted
  interrupt : ∀ k, amb.interrupt k = none
  after : amb.after = .ok ()

/-- **A loop** in a calm environment succeeds. -/
theorem sliceAll_calm (hcheck : checkColumnsBulk a fields bulk 0 rows = .ok ())
    (ha : a.types = fields.ids) {xs : List (ℕ × ℕ)}
    (hxs : ∀ x ∈ xs, 0 < x.2 ∧ x.2 ≤ G.size ∧ x.1 + x.2 ≤ rows) {u : St F} (hcalm : Calm G amb rows u)
    (hvalid : ∀ i < rows, rowInvalid G (bulk.cells i) = none)
    (hs : Ready G fields.ids s.app.native) (hstatus : s.app.native.status = none) :
    ∃ t, sliceAll G amb (stageColumns G bulk 0) k xs s = (.ok (.ok ()), t) := by
  induction xs generalizing k s with
  | nil => exact ⟨s, rfl⟩
  | cons x xs ih =>
    obtain ⟨hpos, hsize, hle⟩ := hxs x (List.mem_cons_self)
    obtain ⟨-, hbad⟩ | ⟨-, hsent⟩ := sliceNative_cases amb k hs.ok hs.closed hcheck
      ha hs.types hpos hsize hle
    -- nothing of what can fail a slice is there
    · obtain hbad | hbad | ⟨i, hi, hbad⟩ | hbad := hbad
      · exact absurd hstatus hbad
      · exact absurd ((hcalm.grant k).shortage (by omega) _) hbad
      · exact absurd (hvalid _ (by omega)) hbad
      · exact absurd (hcalm.answer k 0) hbad
    -- so it is sent, and the next one starts from a good appender again
    · have hnone := (Owner.status_of_lasting hsent).trans hstatus
      obtain ⟨t, ht⟩ := ih (k := k + 1)
        (s := s.onNative (sliceNative G amb (stageColumns G bulk 0) k x.1 x.2))
        (fun x hx => hxs x (List.mem_cons_of_mem _ hx))
        ⟨hs.slice, (Owner.closed_of_lasting hsent).trans hs.closed,
          (Owner.types_of_lasting hsent).trans hs.types⟩ hnone
      exact ⟨t, sliceAll_cons.mpr ⟨_, appendSlice_ok.mpr
        ⟨hcalm.before k, hcalm.interrupt k, hnone, rfl⟩, ht⟩⟩

end Loop

end DuckdbMl.Appender
