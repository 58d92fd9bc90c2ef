import DuckdbMl.Appender.Ingest
import DuckdbMl.Decode.Fold

/-!
# Opening an appender on a declared table

The declaration is checked against the catalog, in the snapshot of the transaction. The appender is
then restricted to the declared columns, unless these are all the columns in their order.

## Main definitions

* `checkDeclaration`: the positions in the catalog of the declared columns
* `Opening`: what others decide while an appender is opened
* `openTyped`: an appender on a declared table
* `Routed`: every declared column is the catalog column of its own name

## Main results

* `checkDeclaration_unknown`, `checkDeclaration_missing`, `checkDeclaration_ok`: the three outcomes
* `routes_iff`: which declarations are routed
-/

namespace DuckdbMl.Appender

open Effects
open DuckdbMl.Decode (Floats Scalar.nativeId)
open DuckdbMl.Sql (Scalar)

/-! ### The declaration -/

/-- The positions of the declared columns, when all of them are in the catalog and every other
column has a default. -/
def checkDeclaration (equal : String → String → Bool) (names : List String)
    (catalog : List (String × Bool)) : Except Cause (List ℕ) :=
  let position name := catalog.findIdx? fun c => equal name c.1
  match names.find? fun name => (position name).isNone with
  | some name => .error (.unknownColumn name)
  | none =>
    match catalog.find? fun c => !c.2 && !names.any (equal · c.1) with
    | some c => .error (.missingColumn c.1)
    | none => .ok (names.map fun name => (position name).getD 0)

section Declaration

variable {names : List String} {catalog : List (String × Bool)}

theorem find?_of_split {α : Type} {p : α → Bool} {xs ys : List α} {x : α} (hx : p x = true)
    (hxs : ∀ y ∈ xs, p y = false) : (xs ++ x :: ys).find? p = some x := by
  rw [List.find?_append, List.find?_eq_none.mpr fun y hy => by simp [hxs y hy], List.find?_cons, hx]
  rfl

theorem findIdx?_name (name : String) (h : name ∈ catalog.map Prod.fst) :
    catalog.findIdx? (fun c => name == c.1) = some ((catalog.map Prod.fst).idxOf name) := by
  induction catalog with
  | nil => cases h
  | cons c catalog ih =>
    rw [List.findIdx?_cons, List.map_cons]
    by_cases hc : c.1 = name
    · subst hc
      simp
    · rw [List.idxOf_cons_ne _ hc, ih ((List.mem_cons.mp h).resolve_left (Ne.symm hc))]
      simp [Ne.symm hc]

theorem isNone_findIdx?_name (name : String) :
    (catalog.findIdx? fun c => name == c.1).isNone = true ↔ name ∉ catalog.map Prod.fst := by
  simp only [Option.isNone_iff_eq_none, List.findIdx?_eq_none_iff, beq_eq_false_iff_ne, List.mem_map,
    not_exists, not_and]
  exact ⟨fun h c hc he => h c hc he.symm, fun h c hc he => h c hc he.symm⟩

/-- **The first declared name** that the catalog has not is reported. -/
theorem checkDeclaration_unknown {before after : List String} {name : String}
    (hsplit : names = before ++ name :: after) (hbefore : ∀ n ∈ before, n ∈ catalog.map Prod.fst)
    (hname : name ∉ catalog.map Prod.fst) :
    checkDeclaration (· == ·) names catalog = .error (.unknownColumn name) := by
  unfold checkDeclaration
  have hfind : names.find? (fun name => (catalog.findIdx? fun c => name == c.1).isNone) =
      some name := by
    rw [hsplit]
    refine find?_of_split ((isNone_findIdx?_name name).mpr hname) fun n hn => ?_
    rw [Bool.eq_false_iff, ne_eq, isNone_findIdx?_name, not_not]
    exact hbefore n hn
  simp only [hfind]

theorem find?_unknown (h : ∀ n ∈ names, n ∈ catalog.map Prod.fst) :
    names.find? (fun name => (catalog.findIdx? fun c => name == c.1).isNone) = none :=
  List.find?_eq_none.mpr fun n hn => by
    rw [isNone_findIdx?_name, not_not]
    exact h n hn

theorem any_name (name : String) : names.any (· == name) = decide (name ∈ names) := by
  rw [Bool.eq_iff_iff, List.any_eq_true, decide_eq_true_iff]
  exact ⟨fun ⟨n, hn, he⟩ => eq_of_beq he ▸ hn, fun h => ⟨name, h, beq_self_eq_true name⟩⟩

/-- **The first column** that is neither declared nor has a default is reported next. -/
theorem checkDeclaration_missing {before after : List (String × Bool)} {name : String}
    (hnames : ∀ n ∈ names, n ∈ catalog.map Prod.fst)
    (hsplit : catalog = before ++ (name, false) :: after)
    (hbefore : ∀ c ∈ before, c.2 = true ∨ c.1 ∈ names) (hname : name ∉ names) :
    checkDeclaration (· == ·) names catalog = .error (.missingColumn name) := by
  unfold checkDeclaration
  have hfind : catalog.find? (fun c => !c.2 && !names.any (· == c.1)) = some (name, false) := by
    conv_lhs => rw [hsplit]
    refine find?_of_split (by simp [any_name, hname]) fun c hc => ?_
    obtain h | h := hbefore c hc
    · simp [h]
    · simp [any_name, h]
  simp only [find?_unknown hnames, hfind]

/-- **Otherwise** each declared column is at the position of its name. -/
theorem checkDeclaration_ok (hnames : ∀ n ∈ names, n ∈ catalog.map Prod.fst)
    (hcatalog : ∀ c ∈ catalog, c.2 = true ∨ c.1 ∈ names) :
    checkDeclaration (· == ·) names catalog =
      .ok (names.map (catalog.map Prod.fst).idxOf) := by
  unfold checkDeclaration
  have hfind : catalog.find? (fun c => !c.2 && !names.any (· == c.1)) = none :=
    List.find?_eq_none.mpr fun c hc => by
      obtain h | h := hcatalog c hc
      · simp [h]
      · simp [any_name, h]
  simp only [find?_unknown hnames, hfind]
  refine congrArg _ (List.map_congr_left fun n hn => ?_)
  rw [findIdx?_name n (hnames n hn)]
  rfl

/-- What an accepted declaration gives. -/
theorem checkDeclaration_eq_ok {indices : List ℕ}
    (h : checkDeclaration (· == ·) names catalog = .ok indices) :
    (∀ n ∈ names, n ∈ catalog.map Prod.fst) ∧ (∀ c ∈ catalog, c.2 = true ∨ c.1 ∈ names) ∧
      indices = names.map (catalog.map Prod.fst).idxOf := by
  -- the first check that fails would be for a declared column that the catalog lacks
  have hnames : ∀ n ∈ names, n ∈ catalog.map Prod.fst := by
    by_contra hne
    unfold checkDeclaration at h
    dsimp only at h
    split at h
    · cases h
    · rename_i hfind
      refine hne fun n hn => ?_
      have := List.find?_eq_none.mp hfind n hn
      rwa [isNone_findIdx?_name, not_not] at this
  -- and the second for a column without a default that is not declared
  have hcatalog : ∀ c ∈ catalog, c.2 = true ∨ c.1 ∈ names := by
    intro c hc
    unfold checkDeclaration at h
    simp only [find?_unknown hnames] at h
    split at h
    · cases h
    · rename_i hfind
      have := List.find?_eq_none.mp hfind c hc
      by_contra hne
      refine this ?_
      simp only [not_or, Bool.not_eq_true] at hne
      simp [any_name, hne.1, hne.2]
  refine ⟨hnames, hcatalog, ?_⟩
  rw [checkDeclaration_ok hnames hcatalog] at h
  exact (Except.ok.inj h).symm

end Declaration

/-! ### Opening -/

/-- A column of a table. -/
structure Column where
  name : String
  hasDefault : Bool
  type : ℕ
  nullable : Bool

/-- What others decide while an appender is opened: what the read of the catalog ends in, the columns
of the table in the snapshot, what the admission meets, what the creation ends in and what its
release raises, the operation that restricts the columns and what the engine refuses in it, and the
cleanup of an appender that cannot be used. -/
structure Opening (E : Type) where
  read : Except (Exn E) Result
  columns : List Column
  admitted : Result
  created : Except (Exn E) Result
  released : Except (Exn E) Unit
  selecting : Ambient E
  refused : Option Cause
  closing : Ambient E

/-- A transaction. -/
structure Tx where
  active : Bool
  poisoned : Option Cause

variable {F : Floats} {E : Type}

def Tx.poison (tx : Tx) (e : Cause) : Tx := { tx with poisoned := tx.poisoned.or (some e) }

def St.poison (s : St F) (e : Cause) : St F := { s with poisoned := s.poisoned.or (some e) }

/-- Poisons a transaction whose typed table operation failed without an error of the core. -/
def typedFailure : Cause := .native "Typed table operation failed; transaction must roll back"

def hasNul (s : String) : Bool := s.toList.contains (Char.ofNat 0)

def rejectNul (s : String) : Result := if hasNul s then .error .embeddedNul else .ok ()

/-- What `open_appender` checks of the names. -/
def Table.identifiers (t : Table F E) : Result := do
  rejectNul t.schema
  rejectNul t.name
  if t.schema.isEmpty || t.name.isEmpty then
    .error (.invalidConfiguration "empty appender identifier")
  else .ok ()

/-- The declared scalars: their ids and names. -/
def Fields.scalarIds : {ts : List Ty} → Fields F E ts → List (ℕ × String)
  | _, .nil => []
  | _, .cons codec rest => (Scalar.nativeId codec.scalar, codec.scalar.name) :: rest.scalarIds

section Definitions

variable (o : Opening E) (t : Table F E)

/-- The rows of the catalog: a name, and whether there is a default. -/
def Opening.catalog : List (String × Bool) := o.columns.map fun c => (c.name, c.hasDefault)

def Opening.admission (tx : Tx) : Result := if tx.active then o.admitted else .error .closed

/-- A table that is missing is reported by the creation. -/
def Opening.made : Except (Exn E) Result :=
  match o.created with
  | .ok (.ok ()) =>
    .ok (if o.columns.isEmpty then .error (.native "Table not found in current database")
      else .ok ())
  | r => r

/-- A native appender that is not made is released. -/
def Opening.acquired : Except (Exn E) Result :=
  match o.made with
  | .ok (.ok ()) => .ok (.ok ())
  | .ok (.error c) => o.released.map fun _ => .error c
  | .error e =>
    match o.released with
    | .ok () => .error e
    | .error e' => .error (.both e e')

/-- An appender on all the columns. -/
def Opening.app : App F where
  native := ⟨false, none, o.columns.map Column.name, List.range o.columns.length,
    o.columns.map Column.type, o.columns.map Column.nullable, [], 0, none, [], false⟩
  types := o.columns.map Column.type
  nullable := o.columns.map Column.nullable
  failure := none
  childOpen := true

def openAppender : Comp Tx (Exn E) (Except Cause (App F)) := fun tx =>
  match t.identifiers with
  | .error c => (.ok (.error c), tx)
  | .ok () =>
    match o.admission tx with
    | .error c => (.ok (.error c), tx)
    | .ok () =>
      match o.acquired with
      | .ok (.ok ()) => (.ok (.ok o.app), tx)
      | .ok (.error c) => (.ok (.error c), tx.poison c)
      | .error e => (.error e, tx.poison interrupted)

/-- The columns are selected, unless they are all the columns in their order. -/
def restrict (indices : List ℕ) : Op F E Result :=
  if indices = List.range o.columns.length then Comp.ret (.ok ())
  else selectColumns o.selecting t.names indices o.refused

/-- An appender that cannot be used poisons, and is closed. -/
def unusable (c : Cause) : Op F E (Except Failure Unit) := fun s =>
  match forceClose o.closing (s.poison typedFailure) with
  | (.ok (), s) => (.ok (.error ⟨t.context, c⟩), s)
  | (.error e, s) => (.error e, s)

/-- The appender is restricted to the declared columns, and their types are checked. -/
def fit (indices : List ℕ) : Op F E (Except Failure Unit) := fun s =>
  match restrict o t indices s with
  | (.error e, s) => (.error e, s)
  | (.ok (.error c), s) => unusable o t c s
  | (.ok (.ok ()), s) =>
    match Decode.checkTypes t.fields.scalarIds s.app.types .columnCount with
    | .error c => unusable o t c s
    | .ok () => (.ok (.ok ()), s)

/-- The catalog as the declaration sees it. -/
def Opening.indices : Except Cause (List ℕ) :=
  if o.columns.isEmpty then .ok [] else checkDeclaration (· == ·) t.names o.catalog

/-- `open_typed`: the transaction, or the appender and its transaction. -/
def openTyped (tx : Tx) : Except (Exn E) (Except Failure Unit) × (Tx ⊕ St F) :=
  if !tx.active then (.ok (.error ⟨t.context, .closed⟩), .inl tx)
  else match o.read with
  | .error e => (.error e, .inl tx)
  | .ok (.error c) => (.ok (.error ⟨t.context, c⟩), .inl tx)
  | .ok (.ok ()) =>
    match o.indices t with
    | .error c => (.ok (.error ⟨t.context, c⟩), .inl (tx.poison typedFailure))
    | .ok indices =>
      match openAppender o t tx with
      | (.error e, tx) => (.error e, .inl tx)
      | (.ok (.error c), tx) => (.ok (.error ⟨t.context, c⟩), .inl tx)
      | (.ok (.ok a), tx) =>
        let (r, s) := fit o t indices ⟨a, tx.active, tx.poisoned⟩
        (r, .inr s)

end Definitions

/-! ### An appender that is opened -/

section Opened

variable {o : Opening E} {t : Table F E} {tx : Tx} {amb : Ambient E} {s u : St F}

theorem status_checkIndices (p : Owner F) (indices : List ℕ) :
    (p.checkIndices indices).status = none →
      p.checkIndices indices = p ∧ ∀ i ∈ indices, i < p.types.length := by
  intro h
  unfold Owner.checkIndices at h ⊢
  split
  case isTrue hall => exact ⟨rfl, by simpa using hall⟩
  case isFalse hall =>
    rw [if_neg hall, Owner.error] at h
    split at h
    case isTrue hs => simp [h] at hs
    case isFalse => cases h

/-- The native appender with the columns selected. -/
def Owner.selected (p : Owner F) (names : List String) (indices : List ℕ) : Owner F :=
  { p with
    staged := []
    stagedRows := 0
    active := names.map fun name => p.catalog.idxOf (cString name)
    types := indices.map fun i => p.types[i]?.getD Decode.invalid
    nullable := indices.map fun i => p.nullable[i]?.getD false }

theorem selectColumns_of_status {p : Owner F} {names : List String} {indices : List ℕ}
    {refused : Option Cause} (h : (p.selectColumns names indices refused).status = none) :
    refused = none ∧ (∀ i ∈ indices, i < p.types.length) ∧
      p.selectColumns names indices refused = p.selected names indices := by
  have hstatus : (p.checkIndices indices).status.or refused = none := by
    unfold Owner.selectColumns at h
    dsimp only at h
    split at h <;> exact h
  obtain ⟨hcheck, hrefused⟩ := Option.or_eq_none_iff.mp hstatus
  obtain ⟨hsame, hbound⟩ := status_checkIndices p indices hcheck
  refine ⟨hrefused, hbound, ?_⟩
  unfold Owner.selectColumns
  rw [hsame] at hcheck ⊢
  simp only [hcheck, hrefused, Option.or_none, Option.isSome_none, Bool.false_eq_true, if_false,
    Owner.selected]

/-- **A selection that succeeds.** -/
theorem selectColumns_ok {names : List String} {indices : List ℕ} {refused : Option Cause}
    (h : selectColumns amb names indices refused s = (.ok (.ok ()), u)) :
    refused = none ∧ u = { s with app := { s.app with
      native := s.app.native.selected names indices
      types := (s.app.native.selected names indices).types
      nullable := (s.app.native.selected names indices).nullable } } := by
  obtain ⟨-, -, v, hwork, hv⟩ := operation_ok (congrArg Prod.fst h)
  obtain rfl : u = v := (congrArg Prod.snd h).symm.trans hv
  cases hi : amb.interrupt 0 with
  -- no Break has come in between, or it would have raised
  | some e =>
    rw [Comp.bind_error (t := s.onNative (·.selectColumns names indices refused)) (e := e)
      (by simp [call, hi])] at hwork
    cases hwork
  | none =>
    rw [Comp.bind_ok (a := ()) (t := s.onNative (·.selectColumns names indices refused))
      (by simp [call, hi]), Comp.bind_ok (c := status) rfl] at hwork
    cases hresult : (s.onNative (·.selectColumns names indices refused)).app.native.result with
    | error c =>
      rw [hresult] at hwork
      cases hwork
    | ok _ =>
      rw [hresult] at hwork
      -- a selection without a status has not been refused
      have hstatus : (s.app.native.selectColumns names indices refused).status = none := by
        unfold Owner.result at hresult
        split at hresult
        · assumption
        · cases hresult
      obtain ⟨hrefused, -, hselected⟩ := selectColumns_of_status hstatus
      refine ⟨hrefused, ?_⟩
      rw [← (Prod.mk.inj hwork).2]
      simp only [St.onNative, hselected]

theorem Opening.app_opened : Opened (F := F) ⟨o.app, tx.active, tx.poisoned⟩ where
  native := ⟨o.columns.map Column.name, by simp [Opening.app]⟩
  paired := by simp [Opening.app]
  failure := rfl
  childOpen := rfl

theorem unusable_ne_ok (c : Cause) (h : unusable o t c s = (.ok (.ok ()), u)) : False := by
  unfold unusable at h
  split at h <;> cases h

/-- **An appender that is opened** has been restricted to the declared columns, of the declared
types. -/
theorem openTyped_ok (h : openTyped o t tx = (.ok (.ok ()), .inr s)) :
    t.identifiers = .ok () ∧ ∃ indices, o.indices t = .ok indices ∧ o.columns ≠ [] ∧
      restrict o t indices ⟨o.app, tx.active, tx.poisoned⟩ = (.ok (.ok ()), s) ∧
      Decode.checkTypes t.fields.scalarIds s.app.types .columnCount = .ok () := by
  unfold openTyped at h
  split at h
  · cases h
  · split at h
    · cases h
    · cases h
    · split at h
      · cases h
      -- every other branch ends without an appender
      · rename_i indices hindices
        split at h
        · cases h
        · cases h
        · rename_i a tx' hopen
          obtain ⟨rfl, rfl, hidentifiers, hmade⟩ :
              a = o.app ∧ tx' = tx ∧ t.identifiers = .ok () ∧ o.made = .ok (.ok ()) := by
            unfold openAppender at hopen
            split at hopen
            · cases hopen
            · rename_i hidentifiers
              split at hopen
              · cases hopen
              · split at hopen
                · rename_i hacquired
                  cases hopen
                  refine ⟨rfl, rfl, hidentifiers, ?_⟩
                  unfold Opening.acquired at hacquired
                  split at hacquired
                  · assumption
                  · cases hr : o.released <;> rw [hr] at hacquired <;> cases hacquired
                  · split at hacquired <;> cases hacquired
                · cases hopen
                · cases hopen
          refine ⟨hidentifiers, indices, hindices, fun hempty => ?_, ?_⟩
          · unfold Opening.made at hmade
            split at hmade
            · simp [hempty] at hmade
            · rename_i hne
              exact hne hmade
          · dsimp only at h
            -- the selection and the types have been accepted
            match hfit : fit o t indices ⟨o.app, tx'.active, tx'.poisoned⟩ with
            | (r, v) =>
              rw [hfit] at h
              cases h
              unfold fit at hfit
              split at hfit
              · cases hfit
              · exact absurd hfit (unusable_ne_ok _)
              · rename_i hrestrict
                split at hfit
                · exact absurd hfit (unusable_ne_ok _)
                · rename_i htypes
                  cases hfit
                  exact ⟨hrestrict, htypes⟩

end Opened

/-! ### Routing -/

/-- The cell that the engine stores in the column `j` of the table for a row of cells, `none` for a
column that takes its default. -/
def Owner.stored (p : Owner F) (cells : List (Option (Datum F))) (j : ℕ) :
    Option (Option (Datum F)) :=
  cells[p.active.idxOf j]?

/-- The rows that the engine has accepted, column by column of the table. -/
def Owner.table (p : Owner F) : List (ℕ → Option (Option (Datum F))) :=
  p.received.flatten.map p.stored

/-- Every declared column is the column of its own name, in what the appender writes, in what it
records of the columns and in what the engine stores. The others take their defaults. -/
structure Routed (t : Table F E) (columns : List Column) (s : St F) : Prop where
  column : ∀ (i : ℕ) (name : String), t.names[i]? = some name → ∃ (j : ℕ) (c : Column),
    columns[j]? = some c ∧ c.name = name ∧ s.app.native.active[i]? = some j ∧
      s.app.native.types[i]? = some c.type ∧ s.app.native.nullable[i]? = some c.nullable ∧
      s.app.types[i]? = some c.type ∧ s.app.nullable[i]? = some c.nullable
  count : s.app.native.active.length = t.names.length
  own : ∀ (cells : List (Option (Datum F))) (i j : ℕ) (name : String) (c : Column),
    t.names[i]? = some name → columns[j]? = some c → c.name = name →
      s.app.native.stored cells j = cells[i]?
  others : ∀ (cells : List (Option (Datum F))) (j : ℕ) (c : Column),
    cells.length = t.names.length → columns[j]? = some c → c.name ∉ t.names →
      s.app.native.stored cells j = none
  appended : ∀ (G : Engine) (amb : Ambient E) (rows : List (Args F t.ts)),
    (∀ type ∈ s.app.types, Decode.unresolved type = false) →
    (append G amb t rows s).1 = .ok (.ok ()) → ∃ cells, encodeRows t.fields rows = .ok cells ∧
      (append G amb t rows s).2.app.native.table =
        s.app.native.table ++ cells.map s.app.native.stored

/-- The engine refuses a column that the table has not. -/
def Opening.Honest (o : Opening E) (t : Table F E) : Prop :=
  o.refused = none → ∀ n ∈ t.names, cString n ∈ o.columns.map Column.name

/-- **Routing**: the check of the declaration reports the first unknown column, then the first
missing one, and else the position of each name; and an appender that is opened is routed. -/
structure Routes (t : Table F E) (catalog : List (String × Bool)) : Prop where
  unknown : ∀ (before after : List String) (name : String), t.names = before ++ name :: after →
    (∀ n ∈ before, n ∈ catalog.map Prod.fst) → name ∉ catalog.map Prod.fst →
      checkDeclaration (· == ·) t.names catalog = .error (.unknownColumn name)
  missing : ∀ (before after : List (String × Bool)) (name : String),
    (∀ n ∈ t.names, n ∈ catalog.map Prod.fst) → catalog = before ++ (name, false) :: after →
      (∀ c ∈ before, c.2 = true ∨ c.1 ∈ t.names) → name ∉ t.names →
        checkDeclaration (· == ·) t.names catalog = .error (.missingColumn name)
  indices : (∀ n ∈ t.names, n ∈ catalog.map Prod.fst) →
    (∀ c ∈ catalog, c.2 = true ∨ c.1 ∈ t.names) →
      checkDeclaration (· == ·) t.names catalog = .ok (t.names.map (catalog.map Prod.fst).idxOf)
  opened : ∀ (o : Opening E) (tx : Tx) (s : St F), o.catalog = catalog → o.Honest t →
    openTyped o t tx = (.ok (.ok ()), .inr s) → Routed t o.columns s

/-- A declaration that the checks accept, but that has not all the columns in their order, and whose
names, cut at their first NUL, are other columns of the catalog. -/
structure Cut (t : Table F E) (catalog : List (String × Bool)) : Prop where
  identifiers : t.identifiers = .ok ()
  declared : ∃ indices, checkDeclaration (· == ·) t.names catalog = .ok indices
  proper : t.names ≠ catalog.map Prod.fst
  cut : ∃ n ∈ t.names, cString n ≠ n
  columns : ∀ n ∈ t.names, cString n ∈ catalog.map Prod.fst

section Routing

variable {o : Opening E} {t : Table F E} {tx : Tx} {s : St F} {names N : List String}

theorem map_range_getD {α : Type} (xs : List α) (d : α) :
    (List.range xs.length).map (fun i => xs[i]?.getD d) = xs :=
  List.ext_getElem (by simp) fun i h _ => by
    have hi : i < xs.length := by simpa using h
    simp [List.getElem?_eq_getElem hi]

theorem map_idxOf_getD (h : ∀ n ∈ names, n ∈ N) :
    (names.map N.idxOf).map (fun i => N[i]?.getD "") = names := by
  rw [List.map_map]
  conv_rhs => rw [← List.map_id names]
  refine List.map_congr_left fun n hn => ?_
  simp [List.getElem?_idxOf (h n hn)]

/-- The names whose positions are all the positions are all the names. -/
theorem eq_of_map_idxOf (h : ∀ n ∈ names, n ∈ N) (he : names.map N.idxOf = List.range N.length) :
    names = N := by
  rw [← map_idxOf_getD h, he, map_range_getD]

theorem idxOf_map {names : List String} {N : List String} (h : ∀ n ∈ names, n ∈ N) {n : String}
    (hn : n ∈ N) : (names.map N.idxOf).idxOf (N.idxOf n) = names.idxOf n := by
  induction names with
  | nil => rfl
  | cons m names ih =>
    rw [List.map_cons]
    by_cases hm : m = n
    · subst hm
      simp
    · have hne : N.idxOf m ≠ N.idxOf n := fun he =>
        hm ((List.idxOf_inj (h m List.mem_cons_self)).mp he)
      rw [List.idxOf_cons_ne _ hne, List.idxOf_cons_ne _ hm,
        ih fun n hn => h n (List.mem_cons_of_mem m hn)]

theorem Opening.names_catalog : o.catalog.map Prod.fst = o.columns.map Column.name := by
  simp [Opening.catalog]

theorem indices_ok {indices : List ℕ} (h : o.indices t = .ok indices) (hne : o.columns ≠ []) :
    (∀ n ∈ t.names, n ∈ o.columns.map Column.name) ∧
      indices = t.names.map (o.columns.map Column.name).idxOf := by
  unfold Opening.indices at h
  rw [if_neg (by simpa using hne)] at h
  obtain ⟨hnames, -, he⟩ := checkDeclaration_eq_ok h
  rw [Opening.names_catalog] at hnames he
  exact ⟨hnames, he⟩

/-- What an appender has after its columns are restricted. -/
structure Restricted (o : Opening E) (t : Table F E) (s : St F) : Prop where
  ok : ∀ G, s.Ok G
  failure : s.app.failure = none
  childOpen : s.app.childOpen = true
  received : s.app.native.received = []
  types : s.app.native.types = (t.names.map (o.columns.map Column.name).idxOf).map fun i =>
    (o.columns.map Column.type)[i]?.getD Decode.invalid
  nullable : s.app.native.nullable = (t.names.map (o.columns.map Column.name).idxOf).map fun i =>
    (o.columns.map Column.nullable)[i]?.getD false
  active : (t.names = o.columns.map Column.name ∧
      s.app.native.active = t.names.map (o.columns.map Column.name).idxOf) ∨
    (t.names.map (o.columns.map Column.name).idxOf ≠ List.range o.columns.length ∧
      o.refused = none ∧ s.app.native.active = t.names.map fun name =>
        (o.columns.map Column.name).idxOf (cString name))

theorem restricted (hnames : ∀ n ∈ t.names, n ∈ o.columns.map Column.name)
    (h : restrict o t (t.names.map (o.columns.map Column.name).idxOf)
      ⟨o.app, tx.active, tx.poisoned⟩ = (.ok (.ok ()), s)) : Restricted o t s := by
  unfold restrict at h
  split at h
  case isTrue hrange =>
    cases h
    have hlength : o.columns.length = (o.columns.map Column.name).length := by simp
    refine ⟨fun G => Opened.ok Opening.app_opened, rfl, rfl, rfl, ?_, ?_, .inl ⟨?_, hrange.symm⟩⟩
    · rw [hrange]
      conv_rhs => rw [show o.columns.length = (o.columns.map Column.type).length by simp]
      exact (map_range_getD _ _).symm
    · rw [hrange]
      conv_rhs => rw [show o.columns.length = (o.columns.map Column.nullable).length by simp]
      exact (map_range_getD _ _).symm
    · exact eq_of_map_idxOf hnames (hlength ▸ hrange)
  case isFalse hrange =>
    have hok : ∀ G, s.Ok G := fun G => by
      have := ok_selectColumns o.selecting (Opened.ok (F := F) (G := G)
        (Opening.app_opened : Opened ⟨o.app, tx.active, tx.poisoned⟩)) t.names
        (t.names.map (o.columns.map Column.name).idxOf) o.refused
      rwa [h] at this
    obtain ⟨hrefused, rfl⟩ := selectColumns_ok h
    exact ⟨hok, rfl, rfl, rfl, rfl, rfl, .inr ⟨hrange, hrefused, rfl⟩⟩

theorem idxOf_of_getElem? {xs : List String} (h : xs.Nodup) {i : ℕ} {x : String}
    (hx : xs[i]? = some x) : xs.idxOf x = i := by
  obtain ⟨hi, rfl⟩ := List.getElem?_eq_some_iff.mp hx
  exact h.idxOf_getElem i hi

theorem Fields.map_scalarIds {ts : List Ty} (fields : Fields F E ts) :
    fields.scalarIds.map Prod.fst = fields.ids := by
  induction fields with
  | nil => rfl
  | cons codec fields ih => rw [Fields.scalarIds, Fields.ids, List.map_cons, ih]

theorem checkTypesFrom_resolved {declared : List (ℕ × String)} {actual : List ℕ} {i : ℕ}
    (h : Decode.checkTypesFrom i declared actual = .ok ()) (hlen : actual.length = declared.length)
    (hresolved : ∀ type ∈ actual, Decode.unresolved type = false) :
    actual = declared.map Prod.fst := by
  induction declared generalizing actual i with
  | nil => simpa using hlen
  | cons d declared ih =>
    cases actual with
    | nil => cases hlen
    | cons a actual =>
      rw [Decode.checkTypesFrom] at h
      split at h
      · rename_i hd
        have ha : a = d.1 := by simpa [hresolved a List.mem_cons_self] using hd
        rw [List.map_cons, ha, ih h (by simpa using hlen) fun x hx =>
          hresolved x (List.mem_cons_of_mem a hx)]
      · cases h

theorem ids_of_checkTypes {ts : List Ty} {fields : Fields F E ts} {actual : List ℕ}
    (h : Decode.checkTypes fields.scalarIds actual .columnCount = .ok ())
    (hresolved : ∀ type ∈ actual, Decode.unresolved type = false) : actual = fields.ids := by
  unfold Decode.checkTypes at h
  split at h
  · cases h
  · rename_i hlen
    rw [checkTypesFrom_resolved h (not_not.mp hlen) hresolved, Fields.map_scalarIds]

/-- What a batch that is appended adds to the table. -/
theorem table_append {G : Engine} {amb : Ambient E} (hs : s.Ok G) (ht : s.app.types = t.fields.ids)
    {rows : List (Args F t.ts)} (h : (append G amb t rows s).1 = .ok (.ok ())) :
    ∃ cells, encodeRows t.fields rows = .ok cells ∧
      (append G amb t rows s).2.app.native.table =
        s.app.native.table ++ cells.map s.app.native.stored := by
  simp only [append, inTable_apply] at h ⊢
  obtain ⟨hresult, hlasting, -⟩ := appendRows_eq amb hs ht rows
  obtain ⟨cells, hcells, happended⟩ := appended_ok (hresult ▸ map_ok_iff.mp h)
  refine ⟨cells, hcells, ?_⟩
  rw [happended] at hlasting
  have hreceived := congrArg (fun u : St F => u.app.native.received) hlasting
  have hactive := congrArg (fun u : St F => u.app.native.active) hlasting
  have hflat : (G.batches cells).flatten = cells := G.flatten_batches cells
  simp only [St.lasting, St.onNative, Owner.lasting] at hreceived hactive
  unfold Owner.table Owner.stored
  rw [hreceived, hactive, List.flatten_append, List.map_append, hflat]

/-- **An appender whose active columns are those of the declared names** is routed. -/
theorem Restricted.routed (h : Restricted o t s)
    (hactive : s.app.native.active = t.names.map (o.columns.map Column.name).idxOf)
    (hmem : ∀ n ∈ t.names, n ∈ o.columns.map Column.name) (hnames : t.names.Nodup)
    (hcolumns : (o.columns.map Column.name).Nodup)
    (htypes : Decode.checkTypes t.fields.scalarIds s.app.types .columnCount = .ok ()) :
    Routed t o.columns s := by
  -- a column of the catalog is found by its name
  have hindex {j : ℕ} {c : Column} (hc : o.columns[j]? = some c) :
      (o.columns.map Column.name).idxOf c.name = j :=
    idxOf_of_getElem? hcolumns (by simp [hc])
  -- and stores the value of the declared column of this name, if there is one
  have hstored (cells : List (Option (Datum F))) {j : ℕ} {c : Column} (hc : o.columns[j]? = some c) :
      s.app.native.stored cells j = cells[t.names.idxOf c.name]? := by
    rw [Owner.stored, hactive, ← hindex hc, idxOf_map hmem
      (List.mem_map_of_mem (List.mem_of_getElem? hc))]
  obtain ⟨-, hsame, hsame'⟩ := (h.ok ⟨1, Nat.one_pos, fun _ => none⟩).same h.failure h.childOpen
  refine ⟨fun i name hi => ?_, by simp [hactive], fun cells i j name c hi hj hc => ?_,
    fun cells j c hlen hj hc => ?_, fun G amb rows hresolved hok => ?_⟩
  · have hname := List.getElem?_idxOf (hmem name (List.mem_of_getElem? hi))
    rw [List.getElem?_map, Option.map_eq_some_iff] at hname
    obtain ⟨c, hc, hname⟩ := hname
    have htype : s.app.native.types[i]? = some c.type := by simp [h.types, hi, hc]
    have hnullable : s.app.native.nullable[i]? = some c.nullable := by simp [h.nullable, hi, hc]
    exact ⟨_, c, hc, hname, by simp [hactive, hi], htype, hnullable, hsame ▸ htype,
      hsame' ▸ hnullable⟩
  · rw [hstored cells hj, hc, idxOf_of_getElem? hnames hi]
  · rw [hstored cells hj, List.getElem?_eq_none_iff, List.idxOf_of_notMem hc]
    exact Nat.le_of_eq hlen
  · exact table_append (h.ok G) (ids_of_checkTypes htypes hresolved) hok

theorem map_idxOf_self (h : N.Nodup) : N.map N.idxOf = List.range N.length :=
  List.ext_getElem (by simp) fun i hi _ => by simp [h.idxOf_getElem]

/-- **A declaration that is not cut** is routed. -/
theorem routed_of_not_cut (hnames : t.names.Nodup) (hcolumns : (o.columns.map Column.name).Nodup)
    (hcut : ¬ Cut t o.catalog) (hhonest : o.Honest t)
    (h : openTyped o t tx = (.ok (.ok ()), .inr s)) : Routed t o.columns s := by
  obtain ⟨hidentifiers, indices, hindices, hne, hrestrict, htypes⟩ := openTyped_ok h
  obtain ⟨hmem, rfl⟩ := indices_ok hindices hne
  have hrestricted := restricted hmem hrestrict
  refine hrestricted.routed ?_ hmem hnames hcolumns htypes
  obtain ⟨-, hactive⟩ | ⟨hrange, hrefused, hactive⟩ := hrestricted.active
  · exact hactive
  · rw [hactive]
    refine List.map_congr_left fun n hn => ?_
    by_contra hne'
    refine hcut ⟨hidentifiers, ?_, fun he => hrange ?_, ⟨n, hn, fun he => hne' (by rw [he])⟩, ?_⟩
    · rw [Opening.indices, if_neg (by simpa using hne)] at hindices
      exact ⟨_, hindices⟩
    · rw [Opening.names_catalog] at he
      rw [he, map_idxOf_self hcolumns, List.length_map]
    · rw [Opening.names_catalog]
      exact hhonest hrefused

end Routing

/-! ### The declarations that are not routed -/

section Cut

variable {t : Table F E} {catalog : List (String × Bool)}

/-- Everything is admitted, granted and accepted. -/
def calmly : Ambient E where
  available := true
  facade := .ok ()
  free := true
  entered := .ok ()
  before _ := .ok ()
  grant _ := ⟨true, true, 0⟩
  answer _ _ := .accepted
  interrupt _ := none
  after := .ok ()
  joined := none
  cleared := .ok none

/-- A table of the columns of a catalog, of the declared types, that is opened without a failure. -/
def opening (t : Table F E) (catalog : List (String × Bool)) : Opening E where
  read := .ok (.ok ())
  columns := catalog.map fun c =>
    ⟨c.1, c.2, t.fields.ids[t.names.idxOf c.1]?.getD Decode.invalid, true⟩
  admitted := .ok ()
  created := .ok (.ok ())
  released := .ok ()
  selecting := calmly
  refused := none
  closing := calmly

theorem catalog_opening : (opening t catalog).catalog = catalog := by
  simp [Opening.catalog, opening, Function.comp_def]

theorem names_opening : (opening t catalog).columns.map Column.name = catalog.map Prod.fst := by
  simp [opening]

theorem selectColumns_calmly {s : St F} {names : List String} {indices : List ℕ}
    (hopen : s.app.childOpen = true) (hactive : s.active = true) (hfail : s.app.failure = none)
    (hstatus : s.app.native.status = none) (hbound : ∀ i ∈ indices, i < s.app.native.types.length) :
    selectColumns (E := E) calmly names indices none s = (.ok (.ok ()), { s with app :=
      { s.app with
        native := s.app.native.selected names indices
        types := (s.app.native.selected names indices).types
        nullable := (s.app.native.selected names indices).nullable } }) := by
  obtain ⟨⟨p, types, nullable, failure, childOpen⟩, active, poisoned⟩ := s
  obtain rfl : childOpen = true := hopen
  obtain rfl : active = true := hactive
  obtain rfl : failure = none := hfail
  dsimp only at hstatus hbound
  -- the indices are those of columns, so that all are accepted
  have hselect : p.selectColumns names indices none =
      p.selected names indices := by
    have hcheck : p.checkIndices indices = p := by
      rw [Owner.checkIndices, if_pos (by simpa using hbound)]
    unfold Owner.selectColumns
    simp only [hcheck, hstatus, Option.or_none, Option.isSome_none, Bool.false_eq_true, if_false,
      Owner.selected]
  have hresult : (p.selected names indices).result = .ok () := by
    rw [Owner.result, Owner.selected, hstatus]
  unfold selectColumns operation admission admitOperation
  simp only [calmly, Bool.and_self, Bool.not_true, Bool.false_eq_true, if_false, if_true]
  rw [Comp.bind_ok (a := ()) (t := St.onNative (·.selectColumns names indices none) _)
    (by simp only [call]; rfl), Comp.bind_ok (c := status) rfl]
  simp only [St.onNative, hselect, hresult]
  rfl

theorem Fields.length_ids {ts : List Ty} (fields : Fields F E ts) : fields.ids.length = ts.length := by
  induction fields with
  | nil => rfl
  | cons codec fields ih => rw [Fields.ids, List.length_cons, ih, List.length_cons]

theorem checkTypesFrom_self (declared : List (ℕ × String)) (i : ℕ) :
    Decode.checkTypesFrom i declared (declared.map Prod.fst) = .ok () := by
  induction declared generalizing i with
  | nil => rfl
  | cons d declared ih => rw [List.map_cons, Decode.checkTypesFrom, if_pos (.inr rfl), ih]

theorem checkTypes_ids {ts : List Ty} (fields : Fields F E ts) :
    Decode.checkTypes fields.scalarIds fields.ids .columnCount = .ok () := by
  rw [← Fields.map_scalarIds, Decode.checkTypes, if_neg (by simp), checkTypesFrom_self]

/-- The types of the declared columns are the declared ones. -/
theorem types_opening (hpaired : t.names.length = t.ts.length) (hnames : t.names.Nodup)
    (hmem : ∀ n ∈ t.names, n ∈ catalog.map Prod.fst) :
    ((t.names.map (catalog.map Prod.fst).idxOf).map fun i =>
      ((opening t catalog).columns.map Column.type)[i]?.getD Decode.invalid) = t.fields.ids := by
  refine List.ext_getElem (by simp [hpaired, Fields.length_ids]) fun i hi hi' => ?_
  have hi : i < t.names.length := by simpa using hi
  have hname := List.getElem?_idxOf (hmem _ (List.getElem_mem hi))
  rw [List.getElem?_map, Option.map_eq_some_iff] at hname
  obtain ⟨c, hc, hname⟩ := hname
  simp [opening, hc, hname, hnames.idxOf_getElem, List.getElem?_eq_getElem hi']

/-- **A declaration that is cut** is opened on other columns. -/
theorem openTyped_cut (hpaired : t.names.length = t.ts.length) (hnames : t.names.Nodup)
    (h : Cut t catalog) : ∃ s : St F,
      openTyped (opening t catalog) t ⟨true, none⟩ = (.ok (.ok ()), .inr s) ∧
        s.app.native.active = t.names.map fun name => (catalog.map Prod.fst).idxOf (cString name) := by
  obtain ⟨hidentifiers, ⟨indices, hdeclared⟩, hproper, -, hcolumns⟩ := h
  obtain ⟨hmem, -, rfl⟩ := checkDeclaration_eq_ok hdeclared
  have hlength : (opening t catalog).columns.length = (catalog.map Prod.fst).length := by
    simp [opening]
  have hne : (opening t catalog).columns.isEmpty = false := by
    rw [Bool.eq_false_iff, ne_eq, List.isEmpty_iff_length_eq_zero, hlength]
    intro h0
    have hnil : catalog.map Prod.fst = [] := List.length_eq_zero_iff.mp h0
    refine hproper (hnil ▸ List.eq_nil_iff_forall_not_mem.mpr fun n hn => ?_)
    simpa [hnil] using hmem n hn
  -- the declaration fits the catalog, by its full names
  have hindices : (opening t catalog).indices t =
      .ok (t.names.map (catalog.map Prod.fst).idxOf) := by
    rw [Opening.indices, hne, if_neg (by decide), catalog_opening, hdeclared]
  have hopen : openAppender (F := F) (opening t catalog) t ⟨true, none⟩ =
      (.ok (.ok (opening t catalog).app), ⟨true, none⟩) := by
    simp only [openAppender, hidentifiers, Opening.admission, Opening.acquired, Opening.made, hne]
    rfl
  -- the engine selects by the names up to a NUL
  obtain ⟨v, hselect, hactive, htypes⟩ : ∃ v : St F,
      selectColumns calmly t.names (t.names.map (catalog.map Prod.fst).idxOf) none
        ⟨(opening t catalog).app, true, none⟩ = (.ok (.ok ()), v) ∧
      v.app.native.active =
        t.names.map (fun name => (catalog.map Prod.fst).idxOf (cString name)) ∧
      v.app.types = t.fields.ids := by
    refine ⟨_, selectColumns_calmly (E := E) rfl rfl rfl rfl fun i hi => ?_, ?_,
      types_opening hpaired hnames hmem⟩
    · obtain ⟨n, hn, rfl⟩ := List.mem_map.mp hi
      simpa [Opening.app, hlength] using List.idxOf_lt_length_of_mem (hmem n hn)
    · simp [Owner.selected, Opening.app, names_opening]
  have hrestrict : restrict (opening t catalog) t (t.names.map (catalog.map Prod.fst).idxOf)
      ⟨(opening t catalog).app, true, none⟩ = (.ok (.ok ()), v) := by
    unfold restrict
    rw [hlength, if_neg fun he => hproper (eq_of_map_idxOf hmem he)]
    exact hselect
  refine ⟨v, ?_, hactive⟩
  unfold openTyped
  rw [if_neg (by decide)]
  simp only [show (opening t catalog).read = .ok (.ok ()) from rfl, hindices, hopen, fit, hrestrict,
    htypes, checkTypes_ids]

theorem not_routes_of_cut (hpaired : t.names.length = t.ts.length) (hnames : t.names.Nodup)
    (hcut : Cut t catalog) : ¬ Routes t catalog := by
  intro h
  obtain ⟨s, hopen, hactive⟩ := openTyped_cut hpaired hnames hcut
  obtain ⟨-, -, -, ⟨n, hn, hne⟩, hcolumns⟩ := hcut
  have hhonest : (opening t catalog).Honest t := fun _ n hn => by
    rw [names_opening]
    exact hcolumns n hn
  obtain ⟨i, hi, hname⟩ := List.getElem_of_mem hn
  have hi : t.names[i]? = some n := List.getElem?_eq_some_iff.mpr ⟨hi, hname⟩
  obtain ⟨j, c, hc, hcname, hj, -⟩ :=
    (h.opened _ _ s catalog_opening hhonest hopen).column i n hi
  -- the active column is that of the name as C reads it
  have hcut : (catalog.map Prod.fst).idxOf (cString n) = j := by simpa [hactive, hi] using hj
  have hcut : (catalog.map Prod.fst)[j]? = some (cString n) :=
    hcut ▸ List.getElem?_idxOf (hcolumns n hn)
  have hown : (catalog.map Prod.fst)[j]? = some n := by
    rw [← names_opening (t := t), List.getElem?_map, hc, ← hcname]
    rfl
  exact hne (Option.some.inj (hcut.symm.trans hown))

/-- **Which declarations are routed**: all but those that are cut. -/
theorem routes_iff (t : Table F E) (catalog : List (String × Bool))
    (hpaired : t.names.length = t.ts.length) (hnames : t.names.Nodup)
    (hcatalog : (catalog.map Prod.fst).Nodup) : Routes t catalog ↔ ¬ Cut t catalog := by
  refine ⟨fun h hcut => not_routes_of_cut hpaired hnames hcut h, fun hcut =>
    ⟨fun before after name hsplit hbefore hname => checkDeclaration_unknown hsplit hbefore hname,
      fun before after name hmem hsplit hbefore hname =>
        checkDeclaration_missing hmem hsplit hbefore hname, checkDeclaration_ok, ?_⟩⟩
  intro o tx s ho hhonest hopen
  subst ho
  exact routed_of_not_cut hnames (Opening.names_catalog (o := o) ▸ hcatalog) hcut hhonest hopen

theorem routes_people :
    Routes people [("name", true), ("age", true), ("id", false)] :=
  (routes_iff people _ (by decide) (by decide) (by decide)).mpr fun h => by
    obtain ⟨n, hn, hne⟩ := h.cut
    have : ∀ n ∈ people.names, cString n = n := by decide
    exact hne (this n hn)

/-- A declaration of the second of two columns, whose name has a NUL. -/
def cutTable : Table bitFloats Empty where
  schema := "main"
  name := "t"
  names := ["a\x00b"]
  ts := [.int64]
  fields := .cons (.nonNull (.identity .int64 ofScalar_int64)) .nil

/-- The columns "a" and "a\0b", with defaults. -/
def cutCatalog : List (String × Bool) := [("a", true), ("a\x00b", true)]

/-- The rows would be stored in the first column. -/
theorem not_routes_cutTable : ¬ Routes cutTable cutCatalog := by
  refine not_routes_of_cut (by decide) (by decide) ⟨rfl, ⟨[1], rfl⟩, by decide, ?_, by decide⟩
  exact ⟨"a\x00b", by decide, by decide⟩

end Cut

end DuckdbMl.Appender
