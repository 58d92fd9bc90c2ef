import DuckdbMl.Appender.Staging

/-!
# The staging pool

Every access stays within the rows staged and the chunks of the pool. A write changes one cell, and
a pool that is used again holds nothing of the batch before.

## Main definitions

* `Owner.Ok`: the chunks have the columns of the appender, and hold the rows staged
* `Owner.read`: the cell of a column and a row
* `Owner.shortage`: the allocation that a batch lacks

## Main results

* `Owner.stageBegin_cases`: rows are staged afresh, or nothing is
* `Owner.read_write`, `Owner.read_write_of_ne`: a write, and the cells that it leaves
-/

namespace DuckdbMl.Appender

open DuckdbMl.Decode (Floats Scalar.nativeId)
open DuckdbMl.Sql (Scalar)

variable {F : Floats}

@[simp] theorem Engine.chunks_zero (E : Engine) : E.chunks 0 = 0 :=
  Nat.div_eq_of_lt (by have := E.size_pos; omega)

theorem Engine.div_lt_chunks (E : Engine) {r rows : ℕ} (h : r < rows) :
    r / E.size < E.chunks rows := by
  have hpos := E.size_pos
  rw [Engine.chunks, Nat.div_lt_iff_lt_mul hpos]
  have := Nat.lt_div_mul_add hpos (a := rows + E.size - 1)
  omega

/-- The rows of a chunk of a batch. -/
theorem Engine.held (E : Engine) {k rows : ℕ} (h : k < E.chunks rows) :
    (if k + 1 = E.chunks rows then rows - k * E.size else E.size) =
      min E.size (rows - k * E.size) := by
  have hpos := E.size_pos
  have hlt := Nat.lt_div_mul_add hpos (a := rows + E.size - 1)
  have hle := Nat.div_mul_le_self (rows + E.size - 1) E.size
  rw [← Engine.chunks] at hlt hle
  split
  case isTrue he =>
    rw [← he, Nat.succ_mul] at hlt
    omega
  case isFalse hne =>
    have : (k + 2) * E.size ≤ E.chunks rows * E.size := Nat.mul_le_mul_right _ (by omega)
    have : (k + 2) * E.size = k * E.size + 2 * E.size := Nat.add_mul _ _ _
    omega

/-- **The chunks delivered** are those before the first failure. -/
theorem deliver_take {α : Type} (answer : ℕ → Answer) (k : ℕ) (bs : List α) :
    ∃ n ≤ bs.length, (deliver answer k bs).1 = bs.take n ∧
      (∀ i < n, answer (k + i) = .accepted) ∧
      (n < bs.length → answer (k + n) ≠ .accepted) := by
  induction bs generalizing k with
  | nil => exact ⟨0, by simp, rfl, by simp, by simp⟩
  | cons b bs ih =>
    cases ha : answer k with
    | suppressed => exact ⟨0, by simp, by simp [deliver, ha], by simp, by simp [ha]⟩
    | failed message => exact ⟨0, by simp, by simp [deliver, ha], by simp, by simp [ha]⟩
    | accepted =>
      obtain ⟨n, hle, htake, hbefore, hafter⟩ := ih (k + 1)
      refine ⟨n + 1, by simpa using hle, by simp [deliver, ha, htake], fun i hi => ?_, fun hn => ?_⟩
      · cases i with
        | zero => exact ha
        | succ i =>
          rw [← Nat.add_assoc, Nat.add_right_comm]
          exact hbefore i (by omega)
      · rw [← Nat.add_assoc, Nat.add_right_comm]
        exact hafter (by simpa using hn)

theorem deliver_of_none {α : Type} {answer : ℕ → Answer} {k : ℕ} {bs : List α}
    (h : (deliver answer k bs).2 = none) : (deliver answer k bs).1 = bs := by
  induction bs generalizing k with
  | nil => rfl
  | cons b bs ih =>
    cases ha : answer k with
    | suppressed => simp [deliver, ha] at h
    | failed message => simp [deliver, ha] at h
    | accepted =>
      simp only [deliver, ha, Prod.map_fst, Prod.map_snd, id_eq] at h ⊢
      rw [ih h]

theorem deliver_accepted {α : Type} {answer : ℕ → Answer} (h : ∀ k, answer k = .accepted) (k : ℕ)
    (bs : List α) : deliver answer k bs = (bs, none) := by
  induction bs generalizing k with
  | nil => rfl
  | cons b bs ih => simp [deliver, h k, ih]

section Batches

variable {α : Type} (E : Engine) (rows : List α)

@[simp] theorem Engine.length_batches : (E.batches rows).length = E.chunks rows.length := by
  simp [batches]

/-- **The chunks are the rows**, in order. -/
theorem Engine.flatten_batches : (E.batches rows).flatten = rows := by
  have h : ∀ n, ((List.range n).map fun k => (rows.drop (k * E.size)).take E.size).flatten =
      rows.take (n * E.size) := by
    intro n
    induction n with
    | zero => simp
    | succ n ih =>
      rw [List.range_succ, List.map_append, List.flatten_append, ih, Nat.succ_mul, List.take_add]
      simp
  rw [batches, h, List.take_of_length_le]
  have hpos := E.size_pos
  have := Nat.lt_div_mul_add hpos (a := rows.length + E.size - 1)
  simp only [chunks]
  omega

/-- Rows that fit in a chunk are one. -/
theorem Engine.batches_of_le (h : 0 < rows.length) (hle : rows.length ≤ E.size) :
    E.batches rows = [rows] := by
  have hchunks : E.chunks rows.length = 1 := by
    have hpos := E.size_pos
    rw [Engine.chunks, show rows.length + E.size - 1 = rows.length - 1 + E.size by omega,
      Nat.add_div_right _ hpos, Nat.div_eq_of_lt (by omega)]
  rw [batches, hchunks]
  simp [List.take_of_length_le hle]

theorem Engine.length_le_of_mem_batches {b : List α} (h : b ∈ E.batches rows) :
    b.length ≤ E.size := by
  obtain ⟨k, -, rfl⟩ := List.mem_map.mp h
  exact List.length_take_le _ _

end Batches

namespace Owner

variable {E : Engine}

section Definitions

variable (p : Owner F)

/-- The chunks have the columns of the appender, and hold the rows staged. -/
structure Ok (E : Engine) (p : Owner F) : Prop where
  tame : p.wild = false
  wide : ∀ chunk ∈ p.staged, chunk.length = p.types.length
  deep : E.chunks p.stagedRows ≤ p.staged.length
  paired : p.nullable.length = p.types.length

/-- What staging does not change. -/
def lasting : Owner F :=
  { p with staged := [], stagedRows := 0, stageFailed := none, wild := false }

/-- The cell of a column and a row, `none` out of the pool. -/
def read (E : Engine) (column row : ℕ) : Option (Option (Datum F)) :=
  (p.vector (row / E.size) column).map (·.cell (row % E.size))

/-- The allocation that a batch lacks. -/
def shortage (E : Engine) (grant : Grant) (rows : ℕ) : Option String :=
  if !grant.types && !p.types.isEmpty then some "Cannot allocate staging types"
  else if p.staged.length < E.chunks rows ∧
      (grant.array = false ∨ grant.chunks < E.chunks rows - p.staged.length) then
    some "Cannot allocate staging chunks"
  else none

end Definitions

variable {p q : Owner F} {k c r : ℕ} {f : Vector F → Vector F}

theorem types_of_lasting (h : q.lasting = p.lasting) : q.types = p.types := by
  have := congrArg types h
  exact this

theorem closed_of_lasting (h : q.lasting = p.lasting) : q.closed = p.closed := by
  have := congrArg closed h
  exact this

theorem status_of_lasting (h : q.lasting = p.lasting) : q.status = p.status := by
  have := congrArg status h
  exact this

theorem lasting_received (h : q.lasting = p.lasting) (xs : List (List (List (Option (Datum F))))) :
    { q with received := q.received ++ xs }.lasting =
      { p with received := p.received ++ xs }.lasting := by
  have := congrArg (fun o : Owner F => { o with received := o.received ++ xs }) h
  exact this

/-! ### The vectors of a pool -/

theorem Ok.exists_vector (h : p.Ok E) (hk : k < p.staged.length) (hc : c < p.types.length) :
    ∃ v, p.vector k c = some v := by
  have hw := h.wide _ (List.getElem_mem hk)
  exact ⟨p.staged[k][c], by simp [vector, hk, hw, hc]⟩

theorem onVector_eq {v : Vector F} (hv : p.vector k c = some v) :
    ∃ chunk, p.staged[k]? = some chunk ∧ chunk[c]? = some v ∧
      p.onVector k c f = { p with staged := p.staged.set k (chunk.set c (f v)) } := by
  cases hk : p.staged[k]? with
  | none => simp [vector, hk] at hv
  | some chunk =>
    have hc : chunk[c]? = some v := by simpa [vector, hk] using hv
    exact ⟨chunk, rfl, hc, by simp [onVector, hk, hc]⟩

theorem vector_onVector {v : Vector F} (hv : p.vector k c = some v) (k' c' : ℕ) :
    (p.onVector k c f).vector k' c' =
      if k' = k ∧ c' = c then some (f v) else p.vector k' c' := by
  obtain ⟨chunk, hk, hc, he⟩ := onVector_eq (f := f) hv
  obtain ⟨hk', rfl⟩ := List.getElem?_eq_some_iff.mp hk
  obtain ⟨hc', rfl⟩ := List.getElem?_eq_some_iff.mp hc
  simp only [he, vector, List.getElem?_set]
  by_cases h : k = k'
  · subst h
    by_cases h' : c = c'
    · subst h'
      simp [hk', hc']
    · simp [hk', h', Ne.symm h']
  · simp [h, Ne.symm h]

theorem Ok.onVector (h : p.Ok E) (hk : k < p.staged.length) (hc : c < p.types.length) :
    (p.onVector k c f).Ok E := by
  obtain ⟨v, hv⟩ := h.exists_vector hk hc
  obtain ⟨chunk, hk, hc, he⟩ := onVector_eq (f := f) hv
  rw [he]
  refine ⟨h.tame, fun chunk' hm => ?_, by simpa using h.deep, h.paired⟩
  obtain hm | rfl := List.mem_or_eq_of_mem_set hm
  · exact h.wide _ hm
  · simpa using h.wide _ (List.mem_of_getElem? hk)

@[simp] theorem lasting_onVector : (p.onVector k c f).lasting = p.lasting := by
  unfold onVector
  split
  · rfl
  · split <;> rfl

@[simp] theorem stagedRows_onVector : (p.onVector k c f).stagedRows = p.stagedRows := by
  unfold onVector
  split
  · rfl
  · split <;> rfl

@[simp] theorem stageFailed_onVector : (p.onVector k c f).stageFailed = p.stageFailed := by
  unfold onVector
  split
  · rfl
  · split <;> rfl

/-! ### Writes -/

section Write

variable {g : Vector F → ℕ → Vector F}

@[simp] theorem lasting_write : (p.write E c r g).lasting = p.lasting := by
  unfold write
  split <;> simp

@[simp] theorem stagedRows_write : (p.write E c r g).stagedRows = p.stagedRows := by
  unfold write
  split <;> simp

@[simp] theorem stageFailed_write : (p.write E c r g).stageFailed = p.stageFailed := by
  unfold write
  split <;> simp

theorem slot_iff : p.slot c r = true ↔ p.closed = false ∧ c < p.types.length ∧ r < p.stagedRows := by
  simp [slot, and_assoc]

theorem Ok.lt_of_slot (h : p.Ok E) (hs : p.slot c r = true) : r / E.size < p.staged.length :=
  Nat.lt_of_lt_of_le (E.div_lt_chunks (slot_iff.mp hs).2.2) h.deep

theorem Ok.write (h : p.Ok E) : (p.write E c r g).Ok E := by
  unfold Owner.write
  split
  case isTrue hs => exact h.onVector (h.lt_of_slot hs) (slot_iff.mp hs).2.1
  case isFalse => exact h

/-- A cell after a change of a vector. -/
theorem read_onVector {v : Vector F} (hv : p.vector k c = some v) (c' r' : ℕ) :
    (p.onVector k c f).read E c' r' =
      if r' / E.size = k ∧ c' = c then some ((f v).cell (r' % E.size)) else p.read E c' r' := by
  rw [read, read, vector_onVector hv]
  split <;> rfl

/-- **A write** changes the cell it is for. -/
theorem read_write (h : p.Ok E) (hs : p.slot c r = true) :
    ∃ v, p.read E c r = some (v.cell (r % E.size)) ∧
      (p.write E c r g).read E c r = some ((g v (r % E.size)).cell (r % E.size)) := by
  obtain ⟨v, hv⟩ := h.exists_vector (h.lt_of_slot hs) (slot_iff.mp hs).2.1
  refine ⟨v, by simp [read, hv], ?_⟩
  rw [Owner.write, if_pos hs, read, vector_onVector hv]
  simp

/-- **A write** leaves every other cell as it is. -/
theorem read_write_of_ne (h : p.Ok E) {c' r' : ℕ} (hne : ¬ (c' = c ∧ r' = r))
    (hg : ∀ v i j, j ≠ i → (g v i).cell j = v.cell j) :
    (p.write E c r g).read E c' r' = p.read E c' r' := by
  unfold Owner.write
  split
  case isFalse => rfl
  case isTrue hs =>
    obtain ⟨v, hv⟩ := h.exists_vector (h.lt_of_slot hs) (slot_iff.mp hs).2.1
    rw [read, read, vector_onVector hv]
    split
    case isFalse => rfl
    case isTrue hk =>
      obtain ⟨hk, rfl⟩ := hk
      have : r' % E.size ≠ r % E.size := fun hm =>
        hne ⟨rfl, by rw [← Nat.div_add_mod r', ← Nat.div_add_mod r, hk, hm]⟩
      rw [hk, hv]
      simp [hg _ _ _ this]

end Write

/-! ### The cells -/

theorem cell_putDatum_of_ne {d : Option (Datum F)} (v : Vector F) (i j : ℕ) (h : j ≠ i) :
    (putDatum d v i).cell j = v.cell j := by
  cases d with
  | none => rfl
  | some d => simp [putDatum, Vector.put, Vector.cell, h]

theorem cell_setRowInvalid_of_ne (v : Vector F) (i j : ℕ) (h : j ≠ i) :
    (v.setRowInvalid i).cell j = v.cell j := by
  simp [Vector.setRowInvalid, Vector.cell, h]

theorem cell_put {v : Vector F} {d x : Datum F} {i : ℕ} (h : v.cell i = some x) :
    (putDatum (some d) v i).cell i = some d := by
  have hv : v.valid i = true := by
    by_contra hv
    simp [Vector.cell, hv] at h
  simp [putDatum, Vector.put, Vector.cell, hv]

theorem cell_setRowInvalid (v : Vector F) (i : ℕ) : (v.setRowInvalid i).cell i = none := by
  simp [Vector.setRowInvalid, Vector.cell]

/-- Staging a datum where none was staged before. -/
theorem read_putDatum {d x : Datum F} (h : p.Ok E) (hs : p.slot c r = true)
    (hx : p.read E c r = some (some x)) :
    (p.write E c r (putDatum (some d))).read E c r = some (some d) := by
  obtain ⟨v, hv, hw⟩ := read_write (g := putDatum (some d)) h hs
  rw [hw, cell_put (x := x) (by rw [hv] at hx; exact Option.some.inj hx)]

theorem read_stageNull (h : p.Ok E) (hs : p.slot c r = true) :
    (p.stageNull E c r).read E c r = some none := by
  obtain ⟨v, -, hw⟩ := read_write (g := Vector.setRowInvalid) h hs
  rw [stageNull, hw, cell_setRowInvalid]

/-! ### A batch begins -/

@[simp] theorem lasting_clearInput : p.clearInput.lasting = p.lasting := rfl

theorem Ok.clearInput (h : p.Ok E) : p.clearInput.Ok E :=
  ⟨h.tame, h.wide, by simp [Owner.clearInput], h.paired⟩

theorem Ok.error (h : p.Ok E) (message : String) : (p.error message).Ok E := by
  unfold Owner.error
  split
  · exact h
  · exact ⟨h.tame, h.wide, h.deep, h.paired⟩

theorem error_eq (h : p.status = none) (message : String) :
    p.error message = { p with status := some (.native message) } := by
  simp [error, h]

/-- An allocation fails after the input is cleared. -/
theorem Ok.shortage (h : q.Ok E) (hl : q.lasting = p.lasting) (hs : p.status = none)
    (hr : q.stagedRows = 0) (hf : q.stageFailed = none) (m : String) :
    (q.error m).Ok E ∧ (q.error m).lasting = { p with status := some (.native m) }.lasting ∧
      (q.error m).stagedRows = 0 ∧ (q.error m).stageFailed = none := by
  have hq : q.status = none := (status_of_lasting hl).trans hs
  refine ⟨h.error m, ?_⟩
  rw [error_eq hq]
  exact ⟨congrArg (fun o : Owner F => { o with status := some (.native m) }) hl, hr, hf⟩

theorem Ok.grow (h : p.Ok E) (n : ℕ) : (p.grow n).Ok E where
  tame := h.tame
  wide chunk hm := by
    obtain hm | hm := List.mem_append.mp hm
    · exact h.wide _ hm
    · simp [List.eq_of_mem_replicate hm, Owner.grow]
  deep := Nat.le_trans h.deep (by simp [Owner.grow])
  paired := h.paired

theorem reset_length {types : List ℕ} {held : ℕ} {chunk : List (Vector F)}
    (h : chunk.length = types.length) : (reset types held chunk).length = types.length := by
  simp [reset, h]

theorem Ok.resetAll {rows : ℕ} (h : p.Ok E) (hn : E.chunks rows ≤ p.staged.length) :
    (p.resetAll E rows).Ok E := by
  rw [Owner.resetAll, if_neg (Nat.not_lt.mpr hn)]
  refine ⟨h.tame, fun chunk hm => ?_, by simpa using hn, h.paired⟩
  obtain ⟨k, hk, rfl⟩ := List.mem_mapIdx.mp hm
  have := h.wide _ (List.getElem_mem hk)
  split
  · exact reset_length this
  · exact this

theorem resetAll_lasting {rows : ℕ} (hn : E.chunks rows ≤ p.staged.length) :
    (p.resetAll E rows).lasting = p.lasting ∧ (p.resetAll E rows).stagedRows = rows ∧
      (p.resetAll E rows).stageFailed = p.stageFailed := by
  rw [Owner.resetAll, if_neg (Nat.not_lt.mpr hn)]
  exact ⟨rfl, rfl, rfl⟩

/-- **Nothing of the batch before** is left in a pool that is used again. -/
theorem read_resetAll {rows : ℕ} (h : p.Ok E) (hn : E.chunks rows ≤ p.staged.length)
    (hc : c < p.types.length) (hr : r < rows) :
    ∃ x, (p.resetAll E rows).read E c r = some (some x) := by
  have hk := E.div_lt_chunks hr
  have hk' : r / E.size < p.staged.length := Nat.lt_of_lt_of_le hk hn
  have hw := h.wide _ (List.getElem_mem hk')
  rw [Owner.resetAll, if_neg (Nat.not_lt.mpr hn)]
  simp [read, vector, hk, hk', reset, hw, hc, Vector.cell]

/-- **A batch begins**: nothing is staged when the appender is closed or has failed, nor when an
allocation fails, and else the rows are staged afresh. -/
theorem stageBegin_cases (h : p.Ok E) (grant : Grant) (rows : ℕ) :
    ((p.closed = true ∨ p.status.isSome = true) ∧ p.stageBegin E grant rows = p.clearInput) ∨
    (p.closed = false ∧ p.status = none ∧ ∃ m, p.shortage E grant rows = some m ∧
      (p.stageBegin E grant rows).Ok E ∧
      (p.stageBegin E grant rows).lasting = { p with status := some (.native m) }.lasting ∧
      (p.stageBegin E grant rows).stagedRows = 0 ∧
      (p.stageBegin E grant rows).stageFailed = none) ∨
    (p.closed = false ∧ p.status = none ∧ p.shortage E grant rows = none ∧
      (p.stageBegin E grant rows).Ok E ∧
      (p.stageBegin E grant rows).lasting = p.lasting ∧
      (p.stageBegin E grant rows).stagedRows = rows ∧
      (p.stageBegin E grant rows).stageFailed = none ∧
      ∀ c < p.types.length, ∀ r < rows,
        ∃ x, (p.stageBegin E grant rows).read E c r = some (some x)) := by
  by_cases hidle : p.closed = true ∨ p.status.isSome = true
  · exact .inl ⟨hidle, by simp [stageBegin, clearInput, hidle]⟩
  obtain ⟨hclosed, hstatus⟩ := not_or.mp hidle
  simp only [Bool.not_eq_true, Option.isSome_eq_false_iff, Option.isNone_iff_eq_none]
    at hclosed hstatus
  have h0 := h.clearInput
  have hs0 : p.clearInput.status = none := hstatus
  have hbegin : p.stageBegin E grant rows =
      if !grant.types && !p.types.isEmpty then p.clearInput.error "Cannot allocate staging types"
      else if p.staged.length < E.chunks rows then
        if !grant.array then p.clearInput.error "Cannot allocate staging chunks"
        else if grant.chunks < E.chunks rows - p.staged.length then
          (p.clearInput.grow (min grant.chunks (E.chunks rows - p.staged.length))).error
            "Cannot allocate staging chunks"
        else (p.clearInput.grow (min grant.chunks (E.chunks rows - p.staged.length))).resetAll E rows
      else p.clearInput.resetAll E rows := by
    rw [stageBegin]
    simp only [show p.clearInput.closed = false from hclosed, hs0, Option.isSome_none,
      Bool.or_false, Bool.false_eq_true, if_false]
    rfl
  -- three allocations may fail: the types, the array and the chunks
  rw [hbegin]
  refine .inr ?_
  by_cases htypes : (!grant.types && !p.types.isEmpty) = true
  case pos =>
    rw [if_pos htypes]
    exact .inl ⟨hclosed, hstatus, _, by rw [shortage, if_pos htypes],
      h0.shortage rfl hstatus rfl rfl _⟩
  -- the chunks of an earlier batch are enough
  case neg =>
    rw [if_neg htypes]
    by_cases hgrow : p.staged.length < E.chunks rows
    case neg =>
      have hn := Nat.not_lt.mp hgrow
      rw [if_neg hgrow]
      exact .inr ⟨hclosed, hstatus, by simp [shortage, htypes, hgrow], h0.resetAll hn,
        (resetAll_lasting (p := p.clearInput) hn).1, (resetAll_lasting (p := p.clearInput) hn).2.1,
        (resetAll_lasting (p := p.clearInput) hn).2.2,
        fun c hc r hr => read_resetAll h0 hn hc hr⟩
    case pos =>
      rw [if_pos hgrow]
      by_cases harray : grant.array = true
      case neg =>
        rw [if_pos (by simpa using harray)]
        exact .inl ⟨hclosed, hstatus, _, by simp [shortage, htypes, hgrow, harray],
          h0.shortage rfl hstatus rfl rfl _⟩
      case pos =>
        rw [if_neg (by simpa using harray)]
        have h1 := h0.grow (min grant.chunks (E.chunks rows - p.staged.length))
        by_cases hfew : grant.chunks < E.chunks rows - p.staged.length
        case pos =>
          rw [if_pos hfew]
          exact .inl ⟨hclosed, hstatus, _, by simp [shortage, htypes, hgrow, hfew],
            h1.shortage rfl hstatus rfl rfl _⟩
        case neg =>
          rw [if_neg hfew]
          have hn : E.chunks rows ≤ (p.clearInput.grow
              (min grant.chunks (E.chunks rows - p.staged.length))).staged.length := by
            simp [Owner.grow, Owner.clearInput]
            omega
          exact .inr ⟨hclosed, hstatus, by simp [shortage, htypes, hfew, harray], h1.resetAll hn,
            (resetAll_lasting hn).1, (resetAll_lasting hn).2.1, (resetAll_lasting hn).2.2,
            fun c hc r hr => read_resetAll h1 hn hc hr⟩

/-! ### The other operations -/

theorem Ok.stageInt64 (h : p.Ok E) (x : BitVec 64) : (p.stageInt64 E c r x).Ok E := h.write

theorem Ok.stageFloat (h : p.Ok E) (x : F.double) : (p.stageFloat E c r x).Ok E := h.write

theorem Ok.stageNull (h : p.Ok E) : (p.stageNull E c r).Ok E := h.write

theorem Ok.drop (h : p.Ok E) (failed : Option String) :
    { p with stagedRows := 0, stageFailed := failed }.Ok E :=
  ⟨h.tame, h.wide, by simp, h.paired⟩

theorem Ok.stageString (h : p.Ok E) (bytes : List UInt8) : (p.stageString E c r bytes).Ok E := by
  unfold Owner.stageString
  split
  · exact h
  · split
    · split
      · exact h.drop _
      · exact h.write
    · split
      · exact h.write
      · exact h

@[simp] theorem lasting_stageString (bytes : List UInt8) :
    (p.stageString E c r bytes).lasting = p.lasting := by
  unfold Owner.stageString
  split
  · rfl
  · split
    · split
      · rfl
      · exact lasting_write
    · split
      · exact lasting_write
      · rfl

theorem Ok.stageFail (h : p.Ok E) (message : String) : (p.stageFail message).Ok E := by
  unfold Owner.stageFail
  split
  · exact h
  · exact h.drop _

@[simp] theorem lasting_stageFail (message : String) : (p.stageFail message).lasting = p.lasting := by
  unfold Owner.stageFail
  split <;> rfl

theorem stageRange_iff {length pos n : ℕ} : p.stageRange E c length pos n = true ↔
    p.closed = false ∧ p.staged ≠ [] ∧ c < p.types.length ∧ 0 < n ∧ n ≤ p.stagedRows ∧
      n ≤ E.size ∧ pos + n ≤ length := by
  simp [stageRange, and_assoc]

theorem Ok.stageBlit (h : p.Ok E) (ba : Bigarray F) (pos n : ℕ) :
    (p.stageBlit E c ba pos n).Ok E := by
  unfold Owner.stageBlit
  split
  case isTrue => exact h.stageFail _
  case isFalse hr =>
    split
    case isTrue => exact h.stageFail _
    case isFalse =>
      obtain ⟨-, hs, hc, -⟩ := stageRange_iff.mp (by simpa using hr)
      exact h.onVector (List.length_pos_iff.mpr hs) hc

@[simp] theorem lasting_stageBlit (ba : Bigarray F) (pos n : ℕ) :
    (p.stageBlit E c ba pos n).lasting = p.lasting := by
  unfold Owner.stageBlit
  split
  · simp
  · split <;> simp

theorem Ok.stageMask (h : p.Ok E) (mask : List (BitVec 8)) (pos n : ℕ) :
    (p.stageMask E c mask pos n).Ok E := by
  unfold Owner.stageMask
  split
  case isTrue => exact h.stageFail _
  case isFalse hr =>
    obtain ⟨-, hs, hc, -⟩ := stageRange_iff.mp (by simpa using hr)
    exact h.onVector (List.length_pos_iff.mpr hs) hc

@[simp] theorem lasting_stageMask (mask : List (BitVec 8)) (pos n : ℕ) :
    (p.stageMask E c mask pos n).lasting = p.lasting := by
  unfold Owner.stageMask
  split <;> simp

theorem Ok.stageBegin (h : p.Ok E) (grant : Grant) (rows : ℕ) : (p.stageBegin E grant rows).Ok E := by
  obtain ⟨-, he⟩ | ⟨-, -, -, -, hok, -⟩ | ⟨-, -, -, hok, -⟩ := stageBegin_cases h grant rows
  · exact he ▸ h.clearInput
  · exact hok
  · exact hok

theorem Ok.selectColumns (h : p.Ok E) (names : List String) (indices : List ℕ)
    (refused : Option Cause) : (p.selectColumns names indices refused).Ok E := by
  have h' : (p.checkIndices indices).Ok E := by
    unfold checkIndices
    split
    · exact h
    · exact h.error _
  unfold Owner.selectColumns
  dsimp only
  split
  · exact ⟨h'.tame, by simp, by simp, h'.paired⟩
  · exact ⟨h'.tame, by simp, by simp, by simp⟩

theorem Ok.close (h : p.Ok E) : p.close.Ok E :=
  ⟨h.tame, by simp [Owner.close], by simp [Owner.close, Owner.clearInput], h.paired⟩

/-! ### To the engine -/

theorem Ok.send (h : p.Ok E) (answer : ℕ → Answer) (rows : ℕ) {k n : ℕ} (hn : k + n ≤ p.staged.length) :
    (send E answer rows k n p).Ok E := by
  induction n generalizing p k with
  | zero => exact h
  | succ n ih =>
    rw [Owner.send]
    split
    · exact h
    · split
      · exact ⟨h.tame, h.wide, h.deep, h.paired⟩
      · exact h.error _
      · rw [List.getElem?_eq_getElem (by omega)]
        have h' : Ok E { p with received := p.received ++ [rowsOf p.staged[k]
            (if n = 0 then rows - k * E.size else E.size)] } := ⟨h.tame, h.wide, h.deep, h.paired⟩
        exact ih h' (by simpa using by omega)

theorem Ok.appendStaged (h : p.Ok E) (answer : ℕ → Answer) : (p.appendStaged E answer).Ok E := by
  unfold Owner.appendStaged
  split
  · exact (h.error _).clearInput
  · split
    · exact (h.error _).clearInput
    · have hs := (h.send answer p.stagedRows (k := 0) (n := E.chunks p.stagedRows)
        (by simpa using h.deep)).clearInput
      exact ⟨hs.tame, fun chunk hm => hs.wide _ (List.mem_of_mem_take hm), by simp [Owner.clearInput],
        hs.paired⟩

theorem send_eq (answer : ℕ → Answer) (rows : ℕ) (bs : List (List (List (Option (Datum F)))))
    {k : ℕ} (hs : p.status = none)
    (hb : ∀ i b, bs[i]? = some b → ∃ chunk, p.staged[k + i]? = some chunk ∧
      rowsOf chunk (if i + 1 = bs.length then rows - (k + i) * E.size else E.size) = b) :
    send E answer rows k bs.length p =
      { p with
        received := p.received ++ (deliver answer k bs).1
        status := (deliver answer k bs).2 } := by
  induction bs generalizing p k with
  | nil => simp [send, deliver, ← hs]
  | cons b bs ih =>
    obtain ⟨chunk, hchunk, hrows⟩ := hb 0 b rfl
    simp only [Nat.add_zero, List.length_cons, Nat.zero_add] at hchunk hrows
    rw [List.length_cons, send, hs]
    cases ha : answer k with
    -- the first failure ends it
    | suppressed => simp [deliver, ha]
    | failed message => simp [deliver, ha, error, hs]
    -- the chunk has the rows of the batch, and the others follow
    | accepted =>
      have hheld : rowsOf chunk (if bs.length = 0 then rows - k * E.size else E.size) = b := by
        simpa [eq_comm] using hrows
      simp only [Option.isSome_none, Bool.false_eq_true, if_false, hchunk, hheld]
      refine (ih (p := { p with status := none, received := p.received ++ [b] }) rfl
        fun i b' hb' => ?_).trans (by simp [deliver, ha])
      have := hb (i + 1) b' (by simpa using hb')
      simpa [Nat.add_assoc, Nat.add_comm 1 i] using this

/-- The rows of a chunk, when the cells are those of `cells`. -/
theorem rowsOf_eq {cells : List (List (Option (Datum F)))} {chunk : List (Vector F)} {k held : ℕ}
    (hk : p.staged[k]? = some chunk) (hheld : held = min E.size (cells.length - k * E.size))
    (hw : ∀ row ∈ cells, row.length = chunk.length)
    (hr : ∀ r row, cells[r]? = some row → ∀ c x, row[c]? = some x → p.read E c r = some x) :
    rowsOf chunk held = (cells.drop (k * E.size)).take E.size := by
  refine List.ext_getElem (by simp [rowsOf, hheld]) fun i hi hi' => ?_
  simp only [rowsOf, List.getElem_map, List.getElem_range, List.getElem_take, List.getElem_drop]
  simp only [rowsOf, List.length_map, List.length_range] at hi
  have hlt : k * E.size + i < cells.length := by omega
  have hwidth := hw _ (List.getElem_mem hlt)
  refine List.ext_getElem (by simp [hwidth]) fun c hc hc' => ?_
  have hread := hr _ _ (List.getElem?_eq_getElem hlt) c _ (List.getElem?_eq_getElem hc')
  have hdiv : (k * E.size + i) / E.size = k := by
    rw [Nat.mul_comm, Nat.mul_add_div E.size_pos, Nat.div_eq_of_lt (by omega), Nat.add_zero]
  have hmod : (k * E.size + i) % E.size = i := by
    rw [Nat.mul_comm, Nat.mul_add_mod, Nat.mod_eq_of_lt (by omega)]
  have hc'' : c < chunk.length := by simpa using hc
  rw [read, hdiv, hmod, vector, hk] at hread
  simpa [hc''] using hread

/-- **The rows staged go to the engine**, in chunks, up to the first failure. -/
theorem appendStaged_eq (cells : List (List (Option (Datum F)))) (h : p.Ok E)
    (answer : ℕ → Answer) (hclosed : p.closed = false)
    (hfailed : p.stageFailed = none) (hs : p.status = none) (hn : p.stagedRows = cells.length)
    (hw : ∀ row ∈ cells, row.length = p.types.length)
    (hr : ∀ r row, cells[r]? = some row → ∀ c x, row[c]? = some x → p.read E c r = some x) :
    (p.appendStaged E answer).lasting =
      { p with
        received := p.received ++ (deliver answer 0 (E.batches cells)).1
        status := (deliver answer 0 (E.batches cells)).2 }.lasting := by
  -- each chunk has the rows of its batch
  have hsend := send_eq (E := E) (p := p) answer cells.length (E.batches cells) (k := 0) hs
    fun i b hb => by
      have hi : i < E.chunks cells.length := by
        simpa using (List.getElem?_eq_some_iff.mp hb).1
      have hlt : i < p.staged.length := Nat.lt_of_lt_of_le (hn ▸ hi) h.deep
      refine ⟨p.staged[i], by simp [hlt], ?_⟩
      have hb' : (cells.drop (i * E.size)).take E.size = b := by
        simpa [Engine.batches, hi] using hb
      rw [← hb']
      refine rowsOf_eq (List.getElem?_eq_getElem hlt) ?_
        (fun row hm => (hw row hm).trans (h.wide _ (List.getElem_mem hlt)).symm) hr
      rw [Nat.zero_add, Engine.length_batches, E.held hi]
  -- after it the input is cleared, of which nothing lasts
  have happend : p.appendStaged E answer =
      { (send E answer p.stagedRows 0 (E.chunks p.stagedRows) p).clearInput with
        staged := ((send E answer p.stagedRows 0 (E.chunks p.stagedRows) p).clearInput).staged.take
          stagedRetained } := by
    simp [Owner.appendStaged, hclosed, hfailed]
  rw [happend, hn, ← Engine.length_batches, hsend]
  rfl

/-- Where no row is staged, none is sent. -/
theorem appendStaged_of_none (answer : ℕ → Answer) (hclosed : p.closed = false)
    (hfailed : p.stageFailed = none) (hn : p.stagedRows = 0) :
    (p.appendStaged E answer).lasting = p.lasting := by
  unfold Owner.appendStaged
  rw [hclosed, hfailed, hn, Engine.chunks_zero]
  simp only [Bool.false_eq_true, if_false, send]
  rfl

/-- A batch that staging has failed goes nowhere. -/
theorem appendStaged_of_failed (answer : ℕ → Answer) {message : String} (hclosed : p.closed = false)
    (hfailed : p.stageFailed = some message) :
    (p.appendStaged E answer).lasting = (p.error message).lasting := by
  unfold Owner.appendStaged
  rw [hclosed, hfailed]
  rfl

/-- A failure is kept. -/
theorem status_error {message : String} {cause : Cause} (h : p.status = some cause) :
    (p.error message).status = some cause := by
  simp [error, h]

theorem send_of_failed {answer : ℕ → Answer} {rows n : ℕ} (h : p.status.isSome = true) :
    send E answer rows k n p = p := by
  cases n with
  | zero => rfl
  | succ n => rw [send, if_pos h]

theorem status_appendStaged {answer : ℕ → Answer} {cause : Cause} (h : p.status = some cause) :
    (p.appendStaged E answer).status = some cause := by
  unfold Owner.appendStaged
  split
  · exact status_error h
  · split
    · exact status_error h
    · rw [send_of_failed (by rw [h]; rfl)]
      exact h

/-- Whether an appender is closed, and its columns. -/
def columns (p : Owner F) : Bool × List ℕ × List Bool := (p.closed, p.types, p.nullable)

theorem columns_of_lasting (h : q.lasting = p.lasting) : q.columns = p.columns := by
  have := congrArg columns h
  exact this

@[simp] theorem columns_error (message : String) : (p.error message).columns = p.columns := by
  unfold error
  split <;> rfl

@[simp] theorem columns_send (answer : ℕ → Answer) (rows k n : ℕ) :
    (send E answer rows k n p).columns = p.columns := by
  induction n generalizing p k with
  | zero => rfl
  | succ n ih =>
    rw [send]
    split
    · rfl
    · split
      · rfl
      · exact columns_error _
      · split
        · rfl
        · exact (ih _).trans rfl

@[simp] theorem columns_appendStaged (answer : ℕ → Answer) :
    (p.appendStaged E answer).columns = p.columns := by
  unfold Owner.appendStaged
  split
  · exact columns_error _
  · split
    · exact columns_error _
    · exact columns_send _ _ _ _

@[simp] theorem columns_stageBegin (grant : Grant) (rows : ℕ) (h : p.Ok E) :
    (p.stageBegin E grant rows).columns = p.columns := by
  obtain ⟨-, he⟩ | ⟨-, -, m, -, -, hl, -⟩ | ⟨-, -, -, -, hl, -⟩ := stageBegin_cases h grant rows
  · rw [he]
    rfl
  · exact (columns_of_lasting hl).trans rfl
  · exact columns_of_lasting hl

end Owner

end DuckdbMl.Appender
