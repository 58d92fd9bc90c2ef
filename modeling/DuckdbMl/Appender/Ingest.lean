import DuckdbMl.Appender.Columns
import DuckdbMl.Transition.System

/-!
# Ingest

The operations on an appender in any order, and what a batch of rows and a batch of columns do in
every state that they lead to.

## Main definitions

* `Act`, `appender`: the operations of an appender

## Main results

* `ok_of_reachable`: every access stays within the staging pool
* `append_refines`: a batch of rows
* `appendColumns_refines`: whole columns are the same rows
-/

namespace DuckdbMl.Appender

open Effects Transition
open DuckdbMl.Decode (Floats Scalar.nativeId)
open DuckdbMl.Sql (Scalar)

variable {F : Floats} {E : Type}

/-! ### The operations keep the invariant -/

section Ok

variable {G : Engine} {amb : Ambient E} {s t : St F}

theorem St.Ok.onNative (h : s.Ok G) {f : Owner F → Owner F} (hf : (f s.app.native).Ok G)
    (hc : (f s.app.native).columns = s.app.native.columns) : (s.onNative f).Ok G where
  native := hf
  same hfail hopen := by
    obtain ⟨hclosed, htypes, hnullable⟩ := h.same hfail hopen
    simp only [Owner.columns, Prod.mk.injEq] at hc
    exact ⟨hc.1.trans hclosed, htypes.trans hc.2.1.symm, hnullable.trans hc.2.2.symm⟩

theorem ok_poison (h : s.app.native.Ok G) (e : Cause) : (poison (E := E) e s).2.Ok G where
  native := h
  same hfail := nomatch hfail

theorem ok_orPoison (h : s.Ok G) (r : Result) : (orPoison (E := E) r s).2.Ok G := by
  cases r with
  | ok u => exact h
  | error e => exact ok_poison h.native e

/-- What the work of an operation keeps. -/
def Keeps (G : Engine) (work : Op F E Result) : Prop :=
  Triple (St.Ok G) work fun r t => t.app.native.Ok G ∧ (r = .ok (.ok ()) → t.Ok G)

theorem ok_operation {work : Op F E Result} (h : s.Ok G) (hw : Keeps G work) :
    (operation amb work s).2.Ok G := by
  have hs := hw s h
  obtain ⟨c, -, he⟩ | ⟨-, e, -, he⟩ | ⟨-, -, ⟨t, ht, he⟩ | ⟨e, t, ht, he⟩ | ⟨e, t, ht, he⟩⟩ :=
    operation_cases amb work s
  · rw [he]
    exact h
  · rw [he]
    exact h
  · rw [he]
    rw [ht] at hs
    exact ok_orPoison (hs.2 rfl) _
  · rw [he]
    rw [ht] at hs
    exact ok_poison hs.1 _
  · rw [he]
    rw [ht] at hs
    exact ok_poison (E := E) hs.1 _

theorem ok_clearing {work : Op F E Result} (h : (work s).2.Ok G) : (clearing work s).2.Ok G :=
  h.onNative h.native.clearInput rfl

/-- A native call that keeps the pool and the columns. -/
theorem keeps_call {f : Owner F → Owner F} (k : ℕ) (hf : ∀ p : Owner F, p.Ok G → (f p).Ok G)
    (hc : ∀ p : Owner F, p.Ok G → (f p).columns = p.columns) :
    Keeps (E := E) G (do
      call amb k f
      status) := by
  intro s h
  have ht := h.onNative (hf _ h.native) (hc _ h.native)
  cases hi : amb.interrupt k with
  | some e =>
    rw [Comp.bind_error (t := s.onNative f) (e := e) (by simp [call, hi])]
    exact ⟨ht.native, fun h => by cases h⟩
  | none =>
    rw [Comp.bind_ok (a := ()) (t := s.onNative f) (by simp [call, hi])]
    exact ⟨ht.native, fun _ => ht⟩

theorem keeps_checked {work : Op F E Result} (k : ℕ) (h : Keeps G work) :
    Keeps G (checked amb k work) := by
  unfold checked
  cases amb.before k with
  | error c => exact fun s hs => ⟨hs.native, nofun⟩
  | ok u => exact h

theorem ok_appendStaged (h : s.Ok G) (null : Option (ℕ × ℕ)) :
    (appendStaged G amb null s).2.Ok G := by
  refine ok_clearing (ok_operation h ?_)
  cases null with
  | some x => exact fun s hs => ⟨hs.native, nofun⟩
  | none =>
    exact keeps_checked 0 (keeps_call 0 (fun p hp => hp.appendStaged _)
      fun p _ => Owner.columns_appendStaged _)

variable (amb) in
theorem ok_appendRows (h : s.Ok G) {ts : List Ty} (fields : Fields F E ts)
    (rows : List (Args F ts)) : (appendRows G amb fields rows s).2.Ok G := by
  have hbegin := h.native.stageBegin (amb.grant 0) rows.length
  obtain ⟨q, hrun, hq⟩ := stageRows_eq s.app.mayBeNull fields rows hbegin 0 none
  have hs : (s.onNative fun _ => q).Ok G := h.onNative hq.ok
    ((Owner.columns_of_lasting hq.lasting).trans (Owner.columns_stageBegin _ _ h.native))
  rw [appendRows, hrun]
  cases encodeRows fields rows with
  | ok cells => exact ok_appendStaged hs _
  | error halt =>
    cases halt with
    | rejected index reason => exact hs.onNative hs.native.clearInput rfl
    | raised e => exact hs.onNative hs.native.clearInput rfl

variable (amb) in
theorem keeps_appendSlice {ts : List Ty} (bulk : Bulk F ts) (k pos n : ℕ) :
    Keeps G (appendSlice G amb (stageColumns G bulk 0) k pos n) := by
  refine keeps_checked k fun s h => ?_
  have ht : (s.onNative fun p =>
      stageColumns G bulk 0 pos n (p.stageBegin G (amb.grant k) n)).Ok G :=
    h.onNative (Ok.stageColumns (h.native.stageBegin _ _) bulk)
      ((Owner.columns_of_lasting (lasting_stageColumns bulk)).trans
        (Owner.columns_stageBegin _ _ h.native))
  exact keeps_call k (fun p hp => hp.appendStaged _) (fun p _ => Owner.columns_appendStaged _) _ ht

theorem keeps_sliceAll {ts : List Ty} (bulk : Bulk F ts) (k : ℕ) (xs : List (ℕ × ℕ)) :
    Keeps G (sliceAll G amb (stageColumns G bulk 0) k xs) := by
  induction xs generalizing k with
  | nil => exact fun s h => ⟨h.native, fun _ => h⟩
  | cons x xs ih =>
    intro s h
    have hslice := keeps_appendSlice amb bulk k x.1 x.2 s h
    rw [sliceAll]
    rcases hr : appendSlice G amb (stageColumns G bulk 0) k x.1 x.2 s with ⟨r, t⟩
    rw [hr] at hslice
    cases r with
    | error e =>
      rw [Comp.bind_error hr]
      exact ⟨hslice.1, fun h => by cases h⟩
    | ok r =>
      rw [Comp.bind_ok hr]
      cases r with
      | error c => exact ⟨hslice.1, fun h => by cases h⟩
      | ok u => exact ih (k + 1) t (hslice.2 rfl)

theorem ok_appendBulk (h : s.Ok G) {ts : List Ty} (fields : Fields F E ts) (bulk : Bulk F ts) :
    (appendBulk G amb fields bulk s).2.Ok G := by
  unfold appendBulk
  split
  · exact h
  · exact ok_clearing (ok_operation h (keeps_sliceAll bulk 0 _))

theorem ok_userCall {p : Owner F} (h : p.Ok G) (answer : Answer) :
    (p.userCall answer).Ok G ∧ (p.userCall answer).columns = p.columns := by
  cases answer with
  | accepted => exact ⟨h, rfl⟩
  | suppressed =>
    rw [Owner.userCall]
    split
    · exact ⟨h, rfl⟩
    · exact ⟨⟨h.tame, h.wide, h.deep, h.paired⟩, rfl⟩
  | failed message => exact ⟨h.error message, Owner.columns_error message⟩

theorem ok_flushAppender (h : s.Ok G) : (flushAppender amb s).2.Ok G :=
  ok_operation h (keeps_call 0 (fun _ hp => (ok_userCall hp _).1) fun _ hp => (ok_userCall hp _).2)

theorem closed_selectColumns (p : Owner F) (names : List String) (indices : List ℕ)
    (refused : Option Cause) : (p.selectColumns names indices refused).closed = p.closed := by
  have h : (p.checkIndices indices).closed = p.closed := by
    unfold Owner.checkIndices
    split
    · rfl
    · exact congrArg Prod.fst (Owner.columns_error _)
  unfold Owner.selectColumns
  dsimp only
  split <;> exact h

variable (amb) in
theorem ok_selectColumns (h : s.Ok G) (names : List String) (indices : List ℕ)
    (refused : Option Cause) : (selectColumns amb names indices refused s).2.Ok G := by
  refine ok_operation h fun s h => ?_
  have hok : (s.onNative (·.selectColumns names indices refused)).app.native.Ok G :=
    h.native.selectColumns names indices refused
  cases hi : amb.interrupt 0 with
  | some e =>
    rw [Comp.bind_error (t := s.onNative (·.selectColumns names indices refused)) (e := e)
      (by simp [call, hi])]
    exact ⟨hok, fun h => by cases h⟩
  | none =>
    rw [Comp.bind_ok (a := ()) (t := s.onNative (·.selectColumns names indices refused))
      (by simp [call, hi]), Comp.bind_ok (c := status) rfl]
    cases (s.onNative (·.selectColumns names indices refused)).app.native.result with
    | error c => exact ⟨hok, fun h => by cases h⟩
    | ok u =>
      refine ⟨hok, fun _ => ⟨hok, fun hfail hopen => ⟨?_, rfl, rfl⟩⟩⟩
      exact (closed_selectColumns _ _ _ _).trans (h.same hfail hopen).1

theorem native_orPoison (r : Result) : (orPoison (E := E) r s).2.app.native = s.app.native := by
  cases r <;> rfl

variable (amb) in
theorem ok_lastFlush (h : s.app.native.Ok G) : (lastFlush amb s).2.app.native.Ok G := by
  unfold lastFlush flushNative
  split
  · exact h
  · cases hi : amb.interrupt 0 with
    | some e =>
      rw [Comp.bind_error (t := s.onNative (·.userCall (amb.answer 0 0))) (e := e)
        (Comp.bind_error (by simp [call, hi]))]
      exact (ok_userCall h _).1
    | none =>
      rw [Comp.bind_ok (t := s.onNative (·.userCall (amb.answer 0 0)))
        (Comp.bind_ok (a := ()) (by simp [call, hi]))]
      exact (ok_userCall h _).1

variable (amb) in
theorem ok_destroy (h : s.app.native.Ok G) : (destroy amb s).2.app.native.Ok G := by
  unfold destroy
  split
  · exact h
  · split
    · exact h
    · dsimp only
      split <;> exact h.close

theorem ok_unregister (h : s.app.native.Ok G) : (unregister s).Ok G where
  native := h
  same _ hopen := absurd hopen (by simp [unregister])

theorem ok_closeAppender (h : s.Ok G) : (closeAppender amb s).2.Ok G := by
  unfold closeAppender
  split
  · exact h
  · split
    · exact h
    · have h1 : (orPoison (E := E) (amb.before 0) s).2.app.native.Ok G := by
        rw [native_orPoison]
        exact h.native
      have h2 := ok_destroy amb (ok_lastFlush amb h1)
      dsimp only
      split
      · split
        · exact ok_unregister h2
        · exact ok_unregister (by rw [native_orPoison]; exact h2)
      all_goals exact ok_unregister h2

theorem ok_forceClose (h : s.Ok G) : (forceClose amb s).2.Ok G := by
  unfold forceClose
  split
  · exact h
  · exact ok_unregister (ok_destroy amb (s := (poison (E := E) unclosed s).2) h.native)

end Ok

/-! ### Any order of operations -/

/-- What happens to an appender and its transaction. -/
inductive Act (F : Floats) (E : Type) : Type 1
  | append (amb : Ambient E) {ts : List Ty} (fields : Fields F E ts) (rows : List (Args F ts))
  | appendColumns (amb : Ambient E) {ts : List Ty} (fields : Fields F E ts) (bulk : Bulk F ts)
  | flush (amb : Ambient E)
  | selectColumns (amb : Ambient E) (names : List String) (indices : List ℕ)
      (refused : Option Cause)
  | close (amb : Ambient E)
  | forceClose (amb : Ambient E)
  | poison (e : Cause)
  | revoke

section System

variable (G : Engine)

def act (s : St F) : Act F E → St F
  | .append amb fields rows => (appendRows G amb fields rows s).2
  | .appendColumns amb fields bulk => (appendBulk G amb fields bulk s).2
  | .flush amb => (flushAppender amb s).2
  | .selectColumns amb names indices refused => (selectColumns amb names indices refused s).2
  | .close amb => (closeAppender amb s).2
  | .forceClose amb => (forceClose amb s).2
  | .poison e => { s with poisoned := s.poisoned.or (some e) }
  | .revoke => { s with active := false }

/-- An appender that has just been opened on columns of a table. -/
structure Opened (s : St F) : Prop where
  native : ∃ catalog, s.app.native = ⟨false, none, catalog, List.range catalog.length, s.app.types,
    s.app.nullable, [], 0, none, [], false⟩
  paired : s.app.nullable.length = s.app.types.length
  failure : s.app.failure = none
  childOpen : s.app.childOpen = true

/-- The operations on an appender, in any order. -/
def appender (F : Floats) (E : Type) : System (St F) (Act F E) where
  start := Opened
  step s a := some (act G s a)

variable {G} {s : St F}

theorem Opened.ok (h : Opened s) : s.Ok G where
  native := by
    obtain ⟨catalog, hn⟩ := h.native
    rw [hn]
    exact ⟨rfl, by simp, by simp, h.paired⟩
  same _ _ := by
    obtain ⟨catalog, hn⟩ := h.native
    simp [hn]

/-- **Every access stays within the pool**: it grows, shrinks and goes with the columns, and no
operation leaves the rows staged outside of it. -/
theorem ok_of_reachable (h : (appender G F E).Reachable .free s) : s.Ok G := by
  refine h.induction (I := St.Ok G) (fun _ => Opened.ok) fun s a t hs _ hstep => ?_
  obtain rfl : act G s a = t := Option.some.inj hstep
  cases a with
  | append amb fields rows => exact ok_appendRows amb hs fields rows
  | appendColumns amb fields bulk => exact ok_appendBulk hs fields bulk
  | flush amb => exact ok_flushAppender hs
  | selectColumns amb names indices refused => exact ok_selectColumns amb hs names indices refused
  | close amb => exact ok_closeAppender hs
  | forceClose amb => exact ok_forceClose hs
  | poison e => exact ⟨hs.native, hs.same⟩
  | revoke => exact ⟨hs.native, hs.same⟩

end System

/-! ### A small table -/

section Example

/-- Floating-point types by their bits. -/
def bitFloats : Floats where
  single := BitVec 32
  double := BitVec 64
  singleOfBits := id
  doubleOfBits := id
  widen x := x.setWidth 64
  narrow x := x.setWidth 32
  narrow_widen x := by simp

/-- Two rows a chunk, and text of ASCII only. -/
def pairs : Engine where
  size := 2
  size_pos := by decide
  invalid bytes := if bytes.all (· < 128) then none else some "Invalid UTF-8"

theorem ofScalar_int64 : Ty.ofScalar .int64 = .int64 := rfl

theorem ofScalar_string : Ty.ofScalar .string = .bytes := rfl

/-- A table of an identifier and an optional name. -/
def people : Table bitFloats Empty where
  schema := "main"
  name := "people"
  names := ["id", "name"]
  ts := [.int64, .option .bytes]
  fields := .cons (.nonNull (.identity .int64 ofScalar_int64))
    (.cons (.nullable (.identity .string rfl)) .nil)

def person (id : BitVec 64) (name : Option (List UInt8)) : Args bitFloats people.ts :=
  .cons (show BitVec 64 from id) (.cons (show Option (List UInt8) from name) .nil)

/-- Everything is admitted, granted and accepted. -/
def welcome : Ambient Empty where
  available := true
  facade := .ok ()
  free := true
  entered := .ok ()
  before _ := .ok ()
  grant _ := ⟨true, true, 16⟩
  answer _ _ := .accepted
  interrupt _ := none
  after := .ok ()
  joined := none
  cleared := .ok none

/-- An appender on the table. -/
def openPeople : St bitFloats where
  app :=
    { native := ⟨false, none, people.names, [0, 1], people.fields.ids, [false, true], [], 0, none, [],
        false⟩
      types := people.fields.ids
      nullable := [false, true]
      failure := none
      childOpen := true }
  active := true
  poisoned := none

theorem openPeople_opened : Opened openPeople := ⟨⟨_, rfl⟩, rfl, rfl, rfl⟩

end Example

/-! ### Batches -/

section Batches

variable {G : Engine} {amb : Ambient E} {s : St F}

theorem inTable_apply (t : Table F E) (work : Op F E Result) (s : St F) :
    inTable t work s = ((work s).1.map (within t.context), (work s).2) := by
  unfold inTable
  match h : work s with
  | (.ok r, u) => exact Comp.bind_ok h
  | (.error e, u) => exact Comp.bind_error h

/-- **A batch of rows**. In every state that the operations of an appender lead to, and whatever the
staging pool was used for before, `append` behaves as `appended`: a rejection of an encoder, then
what refuses the operation, then a forbidden NULL, and only then the engine, which gets the chunks
of the encoded rows up to its first failure. -/
theorem append_refines (G : Engine) (amb : Ambient E) (t : Table F E) (rows : List (Args F t.ts))
    {s : St F} (hs : (appender G F E).Reachable .free s) (ht : s.app.types = t.fields.ids) :
    (append G amb t rows s).1 = (inTable t (appended G amb t.fields rows) s).1 ∧
      (append G amb t rows s).2.lasting = (inTable t (appended G amb t.fields rows) s).2.lasting ∧
      (append G amb t rows s).2.app.native.stagedRows = 0 ∧
      (append G amb t rows s).2.app.native.stageFailed = none ∧
      (append G amb t rows s).2.app.native.wild = false ∧
      ∀ cells, encodeRows t.fields rows = .ok cells →
        (G.batches cells).flatten = cells ∧ (∀ b ∈ G.batches cells, b.length ≤ G.size) ∧
        ∃ n ≤ (G.batches cells).length,
          (deliver (amb.answer 0) 0 (G.batches cells)).1 = (G.batches cells).take n ∧
          (∀ i < n, amb.answer 0 i = .accepted) ∧
          (n < (G.batches cells).length → amb.answer 0 n ≠ .accepted) := by
  have hok := ok_of_reachable hs
  obtain ⟨hresult, hlasting, hrows, hfailed⟩ := appendRows_eq amb hok ht rows
  have htame := (ok_appendRows amb hok t.fields rows).native.tame
  simp only [append, inTable_apply]
  refine ⟨congrArg _ hresult, hlasting, hrows, hfailed, htame, fun cells _ => ?_⟩
  obtain ⟨n, hn, htake, hbefore, hafter⟩ := deliver_take (amb.answer 0) 0 (G.batches cells)
  simp only [Nat.zero_add] at hbefore hafter
  exact ⟨G.flatten_batches cells, fun b hb => G.length_le_of_mem_batches cells hb, n, hn, htake,
    hbefore, hafter⟩

/-- Three people go in two chunks. -/
theorem append_three :
    (append pairs welcome people [person 1 none, person 2 (some [65]), person 3 none]
      openPeople).1 = .ok (.ok ()) ∧
    (append pairs welcome people [person 1 none, person 2 (some [65]), person 3 none]
      openPeople).2.lasting.app.native.received =
        [[[some ⟨.int64, (1 : BitVec 64)⟩, none],
          [some ⟨.int64, (2 : BitVec 64)⟩, some ⟨.string, ([65] : List UInt8)⟩]],
         [[some ⟨.int64, (3 : BitVec 64)⟩, none]]] := by
  obtain ⟨hresult, hlasting, -⟩ := append_refines pairs welcome people
    [person 1 none, person 2 (some [65]), person 3 none]
    (s := openPeople) (.refl openPeople_opened) rfl
  rw [hresult, hlasting]
  exact ⟨rfl, rfl⟩

/-! ### Whole columns -/

variable {a : App F} {ts : List Ty} {fields : Fields F E ts} {bulk : Bulk F ts} {c rows : ℕ}

/-- The rows of a bulk append encode to its cells. -/
theorem encodeRow_cells (hcheck : checkColumnsBulk a fields bulk c rows = .ok ())
    (ha : ∀ i id : ℕ, fields.ids[i]? = some id → a.types[c + i]? = some id) (i : ℕ) :
    encodeRow fields (bulk.row i) c = .ok (bulk.cells i) := by
  induction fields generalizing c with
  | nil =>
    cases bulk
    rfl
  | cons codec fields ih =>
    cases bulk with
    | cons col bulk =>
      obtain ⟨hcol, hrest⟩ := checkColumnsBulk_cons hcheck
      obtain ⟨-, -, hcustom, hid⟩ := checkColumn_ok hcol
      rw [show a.types[c]? = _ from ha 0 _ rfl, Option.getD_some] at hid
      have htail := ih hrest fun i id hid => by
        rw [Nat.add_right_comm, Nat.add_assoc]
        exact ha (i + 1) id hid
      rw [Bulk.row, encodeRow, encodeValue_cell hcustom (nativeId_injective hid), htail]
      rfl

theorem encodeRows_cells (hcheck : checkColumnsBulk a fields bulk 0 rows = .ok ())
    (ha : a.types = fields.ids) :
    encodeRows fields bulk.rows = .ok ((List.range bulk.length).map bulk.cells) := by
  have h : ∀ xs : List ℕ, encodeRows fields (xs.map bulk.row) = .ok (xs.map bulk.cells) := by
    intro xs
    induction xs with
    | nil => rfl
    | cons x xs ih =>
      rw [List.map_cons, encodeRows, encodeRow_cells hcheck (fun i id hid => by
        rw [Nat.zero_add, ha, hid]) x, ih]
      rfl
  exact h _

theorem operation_ok {work : Op F E Result} (h : (operation amb work s).1 = .ok (.ok ())) :
    admission amb s = .ok () ∧ s.app.failure = none ∧
      ∃ t, work s = (.ok (.ok ()), t) ∧ (operation amb work s).2 = t := by
  obtain ⟨c, -, he⟩ | ⟨-, e, -, he⟩ | ⟨ha, hf, ⟨t, ht, he⟩ | ⟨e, t, -, he⟩ | ⟨e, t, -, he⟩⟩ :=
    operation_cases amb work s
  · rw [he] at h
    cases h
  · rw [he] at h
    cases h
  · refine ⟨ha, hf, t, ht, ?_⟩
    rw [he] at h ⊢
    cases hafter : amb.after with
    | ok u => rfl
    | error e =>
      rw [hafter] at h
      cases h
  · rw [he] at h
    cases h
  · rw [he] at h
    cases h

/-- **Columns that are appended** are the cells of their rows, in chunks. -/
theorem appendBulk_ok (hs : s.Ok G) (ht : s.app.types = fields.ids)
    (h : (appendBulk G amb fields bulk s).1 = .ok (.ok ())) :
    checkColumnsBulk s.app fields bulk 0 bulk.length = .ok () ∧
      (appendBulk G amb fields bulk s).2.lasting = (s.onNative fun p =>
        { p with received := p.received ++
            G.batches ((List.range bulk.length).map bulk.cells) }).lasting := by
  unfold appendBulk at h ⊢
  cases hcheck : checkColumnsBulk s.app fields bulk 0 bulk.length with
  | error c =>
    rw [hcheck] at h
    cases h
  | ok u =>
    rw [hcheck] at h
    simp only at h ⊢
    refine ⟨trivial, ?_⟩
    rw [appendSlices, clearing_fst] at h
    obtain ⟨ha, hf, t, hw, hr⟩ := operation_ok h
    rw [appendSlices, clearing_snd, hr]
    obtain ⟨hclosed, htypes, -⟩ := hs.same hf (childOpen_of_admission ha)
    obtain ⟨-, hslices⟩ := slices_cover G bulk.length
    -- every slice has been sent
    have hall := sliceAll_ok hcheck ht hslices ⟨hs.native, hclosed, htypes.symm.trans ht⟩ hw
    rw [hall]
    -- and the slices are the rows in chunks
    have hchunks : (G.slices bulk.length 0).map (fun x => bulk.chunk x.1 x.2) =
        G.batches ((List.range bulk.length).map bulk.cells) := by
      have hlen : ((List.range bulk.length).map bulk.cells).length = bulk.length := by simp
      rw [← slices_batches, hlen]
      refine List.map_congr_left fun x hx => ?_
      have := hslices x hx
      refine List.ext_getElem (by simp [Bulk.chunk]; omega) fun i hi hi' => ?_
      simp [Bulk.chunk]
    rw [hchunks]

theorem begun_of_status {p : Owner F} {grant : Grant} {n : ℕ}
    (h : (p.begun G grant n).status = none) : p.begun G grant n = p := by
  unfold Owner.begun at h ⊢
  split at h
  case isTrue hc => rw [if_pos hc]
  case isFalse hc =>
    rw [if_neg hc]
    have hs : p.status.or ((p.shortage G grant n).map .native) = none := h
    rw [hs]
    rw [Option.or_eq_none_iff] at hs
    rw [← hs.1]

theorem takes_ok {answer : ℕ → Answer} {cells : List (List (Option (Datum F)))} {p : Owner F}
    (h : (p.takes G answer cells).status = none) :
    p.status = none ∧ p.takes G answer cells =
      { p with received := p.received ++ G.batches cells } := by
  unfold Owner.takes at h ⊢
  split at h
  case isTrue hs => simp [h] at hs
  case isFalse hs =>
    have hnone : p.status = none := by simpa using hs
    rw [if_neg hs]
    cases hinvalid : firstInvalid G cells with
    | some message =>
      rw [hinvalid] at h
      cases h
    | none =>
      rw [hinvalid] at h
      have hd : (deliver answer 0 (G.batches cells)).2 = none := h
      refine ⟨hnone, ?_⟩
      simp only [hd, deliver_of_none hd, ← hnone]

theorem concluded_ok (h : (concluded amb s).1 = .ok (.ok ())) :
    s.app.native.status = none ∧ (concluded amb s).2 = s := by
  unfold concluded at h ⊢
  cases hi : amb.interrupt 0 with
  | some e =>
    rw [hi] at h
    cases h
  | none =>
    rw [hi] at h
    cases hs : s.app.native.status with
    | some c =>
      rw [hs] at h
      cases h
    | none =>
      rw [hs] at h
      cases ha : amb.after with
      | ok u => exact ⟨rfl, rfl⟩
      | error c =>
        rw [ha] at h
        cases h

/-- **A batch that is appended** is its cells, in chunks. -/
theorem appended_ok {rows : List (Args F ts)} (h : (appended G amb fields rows s).1 = .ok (.ok ())) :
    ∃ cells, encodeRows fields rows = .ok cells ∧
      (appended G amb fields rows s).2 = s.onNative fun p =>
        { p with received := p.received ++ G.batches cells } := by
  unfold appended at h ⊢
  cases hcells : encodeRows fields rows with
  | error halt =>
    rw [hcells] at h
    cases halt <;> cases h
  | ok cells =>
    refine ⟨cells, rfl, ?_⟩
    rw [hcells] at h
    dsimp only at h ⊢
    split at h
    case h_1 => cases h
    -- it has been admitted
    case h_2 =>
      split at h
      case h_1 => cases h
      case h_2 =>
        split at h
        case h_1 => cases h
        case h_2 =>
          split at h
          case h_1 => cases h
          case h_2 =>
            -- and the engine has accepted all of it
            obtain ⟨hstatus, hend⟩ := concluded_ok h
            obtain ⟨hbegun, htakes⟩ := takes_ok hstatus
            have hsame : (s.onNative (Owner.begun G (amb.grant 0) rows.length)).app.native =
              s.app.native := begun_of_status hbegun
            rw [hend]
            rw [hsame] at htakes
            simp only [St.onNative] at hsame ⊢
            rw [hsame, htakes]

/-- **In a calm environment** rows whose text is valid are appended. -/
theorem appended_calm {rows : List (Args F ts)} {cells : List (List (Option (Datum F)))}
    (hcalm : Calm G amb rows.length s) (hf : s.app.failure = none) (hst : s.app.native.status = none)
    (hcells : encodeRows fields rows = .ok cells)
    (hnull : firstNull s.app.mayBeNull cells 0 = none) (hinvalid : firstInvalid G cells = none) :
    (appended G amb fields rows s).1 = .ok (.ok ()) := by
  have hbegun : Owner.begun G (amb.grant 0) rows.length s.app.native = s.app.native :=
    begun_of_none ((hcalm.grant 0).shortage (Nat.le_refl _) _)
  have htakes : (Owner.takes G (amb.answer 0) cells s.app.native).status = none := by
    rw [Owner.takes, if_neg (by simp [hst]), hinvalid, deliver_accepted (hcalm.answer 0)]
  rw [appended, hcells]
  simp only [hcalm.admission, hf, hnull, hcalm.before, concluded, hcalm.interrupt, St.onNative,
    hbegun, htakes, hcalm.after]
  rfl

theorem firstInvalid_eq_none {cells : List (List (Option (Datum F)))} :
    firstInvalid G cells = none ↔ ∀ xs ∈ cells, rowInvalid G xs = none := by
  simp [firstInvalid, List.findSome?_eq_none_iff]

/-- **In a calm environment** columns that pass their checks, and whose text is valid, are appended.
-/
theorem appendBulk_calm (hs : s.Ok G) (ht : s.app.types = fields.ids)
    (hcalm : Calm G amb bulk.length s) (hf : s.app.failure = none)
    (hst : s.app.native.status = none)
    (hcheck : checkColumnsBulk s.app fields bulk 0 bulk.length = .ok ())
    (hvalid : ∀ i < bulk.length, rowInvalid G (bulk.cells i) = none) :
    (appendBulk G amb fields bulk s).1 = .ok (.ok ()) := by
  obtain ⟨hclosed, htypes, -⟩ := hs.same hf (childOpen_of_admission hcalm.admission)
  obtain ⟨t, hall⟩ := sliceAll_calm (k := 0) hcheck ht (slices_cover G bulk.length).2 hcalm hvalid
    ⟨hs.native, hclosed, htypes.symm.trans ht⟩ hst
  rw [appendBulk, hcheck]
  simp only [appendSlices, clearing_fst, operation, hcalm.admission, hf, hall, afterwards,
    hcalm.after]
  rfl

theorem firstZero_eq_none {mask : List (BitVec 8)} {n : ℕ} (h : firstZero mask n = none) {i : ℕ}
    (hi : i < n) : mask[i]? ≠ some 0 := by
  have := List.find?_eq_none.mp h i (List.mem_range.mpr hi)
  simpa using this

/-- An identity codec is that of a scalar. -/
theorem scalar_of_identity {t : Ty} {codec : Codec F E (.option t)} (h : codec.custom = false) :
    ∃ s, Ty.ofScalar s = t := by
  cases codec with
  | nonNull plan =>
    cases plan with
    | plan s encode => cases h
    | identity s hs => cases s <;> cases hs
  | nullable plan =>
    cases plan with
    | plan s encode => cases h
    | identity s hs => exact ⟨s, hs⟩

/-- The checks leave no forbidden NULL. -/
theorem rowNull_cells (hcheck : checkColumnsBulk a fields bulk c rows = .ok ()) {i : ℕ}
    (hi : i < rows) : rowNull a.mayBeNull (bulk.cells i) c = none := by
  induction fields generalizing c with
  | nil =>
    cases bulk
    rfl
  | cons codec fields ih =>
    cases bulk with
    | cons col bulk =>
      obtain ⟨hcol, hrest⟩ := checkColumnsBulk_cons hcheck
      rw [Bulk.cells, rowNull_cons, ih hrest, Option.or_none]
      cases hcell : col.cell i with
      | some d => rfl
      | none =>
        cases hnull : a.mayBeNull c with
        | true => simp [rowNull, hnull]
        | false =>
          -- only a mask makes a cell NULL, and the checks found no zero in it
          unfold checkColumn at hcol
          dsimp only at hcol
          split_ifs at hcol with h1 h2 h3 h4 h5
          case pos => simp [hnull] at h5
          case neg =>
            cases col with
            | nullable inner mask =>
              cases hz : (Col.nullable inner mask).firstNull rows with
              | some row =>
                rw [hz] at hcol
                cases hcol
              | none =>
                cases hinner : inner.cell i with
                | none =>
                  obtain ⟨s, h⟩ := scalar_of_identity (by simpa using h3)
                  cases inner with
                  | nullable inner mask => cases s <;> cases h
                  | _ => cases hinner
                | some d =>
                  rw [Col.cell, if_neg (firstZero_eq_none hz hi), hinner] at hcell
                  cases hcell
            | _ => cases hcell

theorem firstNull_cells (hcheck : checkColumnsBulk a fields bulk 0 rows = .ok ()) (xs : List ℕ)
    (hxs : ∀ x ∈ xs, x < rows) (row : ℕ) :
    firstNull a.mayBeNull (xs.map bulk.cells) row = none := by
  induction xs generalizing row with
  | nil => rfl
  | cons x xs ih =>
    rw [List.map_cons, firstNull, rowNull_cells hcheck (hxs x List.mem_cons_self),
      ih fun y hy => hxs y (List.mem_cons_of_mem _ hy)]
    rfl

/-- The checks of the columns, in order. -/
def checks (a : App F) (rows : ℕ) : {ts : List Ty} → Fields F E ts → Bulk F ts → ℕ → List Result
  | _, .nil, .nil, _ => []
  | _, .cons codec fields, .cons col bulk, column =>
    checkColumn a codec col column rows :: checks a rows fields bulk (column + 1)

/-- **The error is that of the first offending column.** -/
theorem checkColumnsBulk_error {e : Cause} :
    checkColumnsBulk a fields bulk c rows = .error e ↔
      ∃ k : ℕ, (checks a rows fields bulk c)[k]? = some (Except.error e) ∧
        ∀ j < k, (checks a rows fields bulk c)[j]? = some (Except.ok ()) := by
  induction fields generalizing c with
  | nil =>
    cases bulk
    simp [checkColumnsBulk, checks]
  | cons codec fields ih =>
    cases bulk with
    | cons col bulk =>
      rw [checkColumnsBulk, checks]
      cases hcol : checkColumn a codec col c rows with
      -- the first column offends
      | error e' =>
        constructor
        · rintro ⟨⟩
          exact ⟨0, rfl, by simp⟩
        · rintro ⟨k, hk, hbefore⟩
          cases k with
          | zero => exact Option.some.inj hk
          | succ k => cases hbefore 0 (Nat.succ_pos k)
      -- it passes, and the first offending one is among the others
      | ok u =>
        refine ih.trans ⟨?_, ?_⟩
        · rintro ⟨k, hk, hbefore⟩
          refine ⟨k + 1, hk, fun j hj => ?_⟩
          cases j with
          | zero => rfl
          | succ j => exact hbefore j (by omega)
        · rintro ⟨k, hk, hbefore⟩
          cases k with
          | zero => cases hk
          | succ k => exact ⟨k, hk, fun j hj => hbefore (j + 1) (by omega)⟩

/-- The columns with other text under the NULLs of their masks. -/
def Col.overwrite (text : ℕ → List UInt8) : {t : Ty} → Col F t → Col F t
  | _, .nullable (.strings s h texts) mask =>
    .nullable (.strings s h (texts.mapIdx fun i b => if mask[i]? = some 0 then text i else b)) mask
  | _, col => col

/-- The column `c` on with other text under the NULLs. -/
def Bulk.overwrite (text : ℕ → ℕ → List UInt8) : {ts : List Ty} → ℕ → Bulk F ts → Bulk F ts
  | _, _, .nil => .nil
  | _, c, .cons col bulk => .cons (col.overwrite (text c)) (bulk.overwrite text (c + 1))

theorem length_overwrite (text : ℕ → List UInt8) {t : Ty} (col : Col F t) :
    (col.overwrite text).length = col.length := by
  unfold Col.overwrite
  split <;> simp [Col.length]

theorem checkColumn_overwrite (text : ℕ → List UInt8) {t : Ty} (codec : Codec F E t) (col : Col F t)
    (c rows : ℕ) :
    checkColumn a codec (col.overwrite text) c rows = checkColumn a codec col c rows := by
  unfold Col.overwrite
  split
  · simp only [checkColumn, Col.length, List.length_mapIdx, Col.maskLength, Col.scalar,
      Col.firstNull]
    rfl
  · rfl

theorem stageColumn_overwrite (text : ℕ → List UInt8) {t : Ty} (col : Col F t) (c pos n : ℕ)
    (p : Owner F) :
    stageColumn G (col.overwrite text) c pos n p = stageColumn G col c pos n p := by
  unfold Col.overwrite
  split
  case h_1 s h texts mask =>
    rw [stageColumn, stageColumn]
    congr 1
    funext p i
    split
    case isTrue => rfl
    case isFalse hm =>
      congr 1
      rw [List.getElem?_mapIdx]
      cases texts[pos + i]? with
      | none => rfl
      | some b => exact if_neg hm
  case h_2 => rfl

/-- **Text under a NULL** is neither validated nor stored. -/
theorem appendBulk_overwrite (text : ℕ → ℕ → List UInt8) :
    appendBulk G amb fields (bulk.overwrite text 0) = appendBulk G amb fields bulk := by
  have hlength : (bulk.overwrite text 0).length = bulk.length := by
    cases bulk with
    | nil => rfl
    | cons col bulk => exact length_overwrite _ _
  -- neither the checks nor the staging look at it, column by column
  have hcheck : ∀ {ts : List Ty} (a : App F) (fields : Fields F E ts) (bulk : Bulk F ts) (c rows : ℕ),
      checkColumnsBulk a fields (bulk.overwrite text c) c rows =
        checkColumnsBulk a fields bulk c rows := by
    intro ts a fields bulk c rows
    induction fields generalizing c with
    | nil =>
      cases bulk
      rfl
    | cons codec fields ih =>
      cases bulk with
      | cons col bulk =>
        rw [Bulk.overwrite, checkColumnsBulk, checkColumnsBulk, checkColumn_overwrite, ih]
  have hstage : ∀ {ts : List Ty} (bulk : Bulk F ts) (c pos n : ℕ) (p : Owner F),
      stageColumns G (bulk.overwrite text c) c pos n p = stageColumns G bulk c pos n p := by
    intro ts bulk c pos n p
    induction bulk generalizing c p with
    | nil => rfl
    | cons col bulk ih =>
      rw [Bulk.overwrite, stageColumns, stageColumns, stageColumn_overwrite, ih]
  funext s
  have hstages : stageColumns G (bulk.overwrite text 0) 0 = stageColumns G bulk 0 := by
    funext pos n p
    exact hstage bulk 0 pos n p
  rw [appendBulk, appendBulk, hlength, hcheck, hstages]

theorem map_ok_iff {t : Table F E} {r : Except (Exn E) Result} :
    r.map (within t.context) = .ok (.ok ()) ↔ r = .ok (.ok ()) := by
  match r with
  | .ok (.ok ()) => simp [Except.map, within, Except.mapError]
  | .ok (.error c) => simp [Except.map, within, Except.mapError]
  | .error e => simp [Except.map]

/-- **Columns are the same rows.** The slices cover the rows. A check that fails is that of the first
offending column, and changes nothing. Columns that are appended leave the appender as a batch of
their rows does, with exactly these rows in chunks sent to the engine, and both succeed when nothing
goes wrong. Text under a NULL does not matter. -/
theorem appendColumns_refines (G : Engine) (amb : Ambient E) (t : Table F E) (bulk : Bulk F t.ts)
    {s : St F} (hs : (appender G F E).Reachable .free s) (ht : s.app.types = t.fields.ids) :
    ((G.slices bulk.length 0).flatMap (fun x => List.range' x.1 x.2) = List.range bulk.length ∧
      ∀ x ∈ G.slices bulk.length 0, 0 < x.2 ∧ x.2 ≤ G.size ∧ x.1 + x.2 ≤ bulk.length) ∧
    (∀ e, (∃ k : ℕ, (checks s.app bulk.length t.fields bulk 0)[k]? = some (Except.error e) ∧
        ∀ j < k, (checks s.app bulk.length t.fields bulk 0)[j]? = some (Except.ok ())) →
      appendColumns G amb t bulk s = (.ok (.error ⟨t.context, e⟩), s)) ∧
    ((appendColumns G amb t bulk s).1 = .ok (.ok ()) →
      (∃ cells, encodeRows t.fields bulk.rows = .ok cells ∧
        (appendColumns G amb t bulk s).2.lasting =
          (s.onNative fun p => { p with received := p.received ++ G.batches cells }).lasting) ∧
      ∀ amb' : Ambient E, (append G amb' t bulk.rows s).1 = .ok (.ok ()) →
        (append G amb' t bulk.rows s).2.lasting = (appendColumns G amb t bulk s).2.lasting) ∧
    (checkColumnsBulk s.app t.fields bulk 0 bulk.length = .ok () → Calm G amb bulk.length s →
      s.app.failure = none → s.app.native.status = none →
      (∀ i < bulk.length, rowInvalid G (bulk.cells i) = none) →
      (appendColumns G amb t bulk s).1 = .ok (.ok ()) ∧
        (append G amb t bulk.rows s).1 = .ok (.ok ())) ∧
    ∀ text, appendColumns G amb t (bulk.overwrite text 0) = appendColumns G amb t bulk := by
  have hok := ok_of_reachable hs
  refine ⟨slices_cover G bulk.length, fun e he => ?_, fun h => ?_, fun hcheck hcalm hf hst hvalid => ?_,
    fun text => ?_⟩
  · rw [appendColumns, inTable_apply, appendBulk, checkColumnsBulk_error.mpr he]
    rfl
  · simp only [appendColumns, inTable_apply] at h ⊢
    obtain ⟨hcheck, hsent⟩ := appendBulk_ok hok ht (map_ok_iff.mp h)
    have hcells := encodeRows_cells hcheck ht
    -- the row append encodes the same cells, and both send them in the same batches
    refine ⟨⟨_, hcells, hsent⟩, fun amb' h' => ?_⟩
    simp only [append, inTable_apply] at h' ⊢
    obtain ⟨hresult, hlasting, -⟩ := appendRows_eq amb' hok ht bulk.rows
    obtain ⟨cells, hcells', happended⟩ := appended_ok (hresult ▸ map_ok_iff.mp h')
    rw [hlasting, happended, hsent]
    rw [hcells] at hcells'
    cases hcells'
    rfl
  · simp only [appendColumns, append, inTable_apply, map_ok_iff]
    refine ⟨appendBulk_calm hok ht hcalm hf hst hcheck hvalid, ?_⟩
    rw [(appendRows_eq amb hok ht bulk.rows).1]
    have hlen : bulk.rows.length = bulk.length := by simp [Bulk.rows]
    refine appended_calm (hlen ▸ hcalm) hf hst (encodeRows_cells hcheck ht)
      (firstNull_cells hcheck _ (fun x hx => List.mem_range.mp hx) 0)
      (firstInvalid_eq_none.mpr fun xs hxs => ?_)
    obtain ⟨i, hi, rfl⟩ := List.mem_map.mp hxs
    exact hvalid i (List.mem_range.mp hi)
  · rw [appendColumns, appendColumns, appendBulk_overwrite]

/-- Three people, column by column. The name of the first is under a NULL. -/
def peopleColumns : Bulk bitFloats people.ts :=
  .cons (.int64 .int64 rfl [1, 2, 3])
    (.cons (.nullable (.strings .string rfl [[200], [65], []]) [0, 1, 0]) .nil)

theorem appendColumns_three :
    (appendColumns pairs welcome people peopleColumns openPeople).1 = .ok (.ok ()) ∧
    (append pairs welcome people peopleColumns.rows openPeople).2.lasting =
      (appendColumns pairs welcome people peopleColumns openPeople).2.lasting := by
  obtain ⟨-, -, hsame, hcalm, -⟩ := appendColumns_refines pairs welcome people peopleColumns
    (s := openPeople) (.refl openPeople_opened) rfl
  have hchunks : pairs.chunks peopleColumns.length ≤ 16 := by decide
  obtain ⟨hcolumns, hrows⟩ := hcalm rfl
    ⟨rfl, fun _ => rfl, fun _ => ⟨rfl, rfl, hchunks⟩, fun _ _ => rfl, fun _ => rfl, rfl⟩
    rfl rfl (by decide)
  exact ⟨hcolumns, (hsame hcolumns).2 welcome hrows⟩

end Batches

end DuckdbMl.Appender
