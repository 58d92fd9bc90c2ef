import DuckdbMl.Failure.Basic
import DuckdbMl.Matching.Greedy
import DuckdbMl.Schema.Ddl
import Mathlib.Data.List.Sort
import Mathlib.Data.Prod.Lex
import Mathlib.Data.String.Basic

/-!
# Tables: comparing a declaration with the catalog

Verification compares constraints as shapes, ignoring the case of names, and looks for a partner
of each by a greedy search. A unique index over plain columns counts as a UNIQUE constraint that
need not be declared.

## Main definitions

* `Shape`, `same`: a constraint as it is compared
* `compareCatalog`: the first difference between a declaration and the rows of the catalog
* `Same`: the relation that `same` decides
* `Agrees`: what a catalog without differences has

## Main results

* `same_eq`: `same` decides an equivalence on shapes whose foreign keys are paired
* `compareCatalog_iff`: no difference is reported exactly when the catalog agrees, whatever the
  order of its rows
-/

namespace DuckdbMl.Schema

open Sql Matching

/-! ### Shapes -/

/-- A constraint as verification compares it: kind, columns, and for a foreign key the referenced
table and columns. -/
structure Shape where
  kind : String
  columns : List String
  table : String
  references : List String
  deriving DecidableEq, Repr

def describe (s : Shape) : String :=
  s.kind ++ " " ++ quoted s.columns ++
    if s.table = "" then "" else " REFERENCES " ++ quote s.table ++ " " ++ quoted s.references

/-- ASCII letters in lower case. -/
def lowercase (s : String) : String := String.ofList (s.toList.map Char.toLower)

def lower (names : List String) : List String := names.map lowercase

def caselessEqual (a b : String) : Bool := lowercase a = lowercase b

def zipExn (a b : List String) : Except Sql.Exn (List (String × String)) :=
  if a.length = b.length then .ok (a.zip b)
  else invalidArg ("length mismatch in zip_exn: " ++ toString a.length ++ " <> " ++
    toString b.length)

/-- The columns of a foreign key with the referenced ones, sorted. -/
def pairs (s : Shape) : Except Sql.Exn (List (String ×ₗ String)) := do
  let l ← zipExn (lower s.columns) (lower s.references)
  return (l.map toLex).insertionSort (· ≤ ·)

def sameSet (a b : List String) : Bool :=
  decide (a.insertionSort (· ≤ ·) = b.insertionSort (· ≤ ·))

/-- Key columns compare as sets, a foreign key by its pairs; names ignore case. -/
def same (a b : Shape) : Except Sql.Exn Bool :=
  if a.kind = b.kind ∧ caselessEqual a.table b.table then
    if a.kind = "FOREIGN KEY" then do
      -- the right operand is evaluated first
      let q ← pairs b
      let p ← pairs a
      return decide (p = q)
    else .ok (sameSet (lower a.columns) (lower b.columns))
  else .ok false

def declaredShape : TableConstraint → Option Shape
  | .primaryKey columns => some ⟨"PRIMARY KEY", columns, "", []⟩
  | .unique columns => some ⟨"UNIQUE", columns, "", []⟩
  | .foreignKey columns table references => some ⟨"FOREIGN KEY", columns, table, references⟩
  | .check _ columns => some ⟨"CHECK", columns, "", []⟩
  | .default _ _ _ => none

def declaredShapes (constraints : List TableConstraint) : List Shape :=
  constraints.filterMap declaredShape

/-- The position of the first shape of `actual` that is the same as `e`. -/
def firstSame (e : Shape) : List Shape → Except Sql.Exn (Option ℕ)
  | [] => .ok none
  | a :: rest => do
    if ← same e a then return some 0
    else return (← firstSame e rest).map (· + 1)

/-- The first shape of `expected` without a distinct match in `actual`. -/
def unmatched : List Shape → List Shape → Except Sql.Exn (Option Shape)
  | [], _ => .ok none
  | e :: rest, actual => do
    match ← firstSame e actual with
    | none => return some e
    | some i => unmatched rest (actual.eraseIdx i)

/-! ### The rows of the catalog -/

structure CatalogColumn where
  name : String
  nullable : Bool
  hasDefault : Bool

/-- A constraint other than NOT NULL: its index, type and referenced table. -/
structure KindRow where
  index : ℤ
  kind : String
  table : String

/-- A column of the constraint of an index. -/
structure NameRow where
  index : ℤ
  name : String

/-- An expression of a unique index. -/
structure IndexRow where
  index : String
  expression : String

/-- The rows that `verify` reads. -/
structure Rows where
  catalog : List CatalogColumn
  kinds : List KindRow
  columns : List NameRow
  references : List NameRow
  indexes : List IndexRow

def undouble : List Char → List Char
  | '"' :: '"' :: rest => '"' :: undouble rest
  | c :: rest => c :: undouble rest
  | [] => []

/-- An index expression as a column name: a bare identifier, or a quoted one unquoted. Other
expressions are no column. -/
def indexColumn (expression : String) : Option String :=
  let l := expression.toList
  if 2 ≤ l.length ∧ l.head? = some '"' ∧ l.getLast? = some '"' then
    some (String.ofList (undouble (l.drop 1).dropLast))
  else if l.all fun c => c.isAlphanum || c == '_' then some expression
  else none

def ofIndex (rows : List NameRow) (index : ℤ) : List String :=
  rows.filterMap fun r => if r.index = index then some r.name else none

def actualShapes (r : Rows) : List Shape :=
  r.kinds.map fun k => ⟨k.kind, ofIndex r.columns k.index, k.table, ofIndex r.references k.index⟩

/-- A unique index over plain columns enforces a declared UNIQUE. -/
def indexedShapes (indexes : List IndexRow) : List Shape :=
  (((indexes.map IndexRow.index).dedup).insertionSort (· ≤ ·)).filterMap fun index =>
    let columns := (indexes.filter (·.index = index)).map IndexRow.expression
    let names := columns.filterMap indexColumn
    if names.length = columns.length then some ⟨"UNIQUE", names, "", []⟩ else none

/-! ### The comparison -/

def nullabilityDifference (t : TableDef) (catalog : List CatalogColumn) :
    Option (String × String) :=
  (specs t.columns).findSome? fun c =>
    match catalog.find? fun a => caselessEqual a.name c.name with
    | some a =>
      if a.nullable ≠ c.nullable then
        let shown n := quote c.name ++ if n then " nullable" else " NOT NULL"
        some (shown c.nullable, shown a.nullable)
      else none
    | none => none

def defaulted (constraints : List TableConstraint) (name : String) : Bool :=
  constraints.any fun
    | .default column _ _ => caselessEqual column name
    | _ => false

def defaultDifference (t : TableDef) (catalog : List CatalogColumn) : Option CatalogColumn :=
  catalog.find? fun a =>
    t.columns.any (fun c => caselessEqual c.1 a.name) &&
      a.hasDefault != defaulted t.constraints a.name

/-- Compares the declaration with the rows of the catalog. -/
def compareCatalog (t : TableDef) (r : Rows) : Except Sql.Exn (Except Failure Unit) :=
  let mismatch (kind expected actual : String) : Except Sql.Exn (Except Failure Unit) :=
    .ok (.error ⟨.table t.schema t.name, .constraintMismatch kind expected actual⟩)
  match nullabilityDifference t r.catalog with
  | some (expected, actual) => mismatch "NOT NULL" expected actual
  | none => do
    let actual := actualShapes r
    let declared := declaredShapes t.constraints
    -- the right component is evaluated first
    let extra ← unmatched actual declared
    let missing ← unmatched declared (actual ++ indexedShapes r.indexes)
    match missing, extra with
    | some e, _ => mismatch e.kind (describe e) "none"
    | none, some a => mismatch a.kind "none" (describe a)
    | none, none =>
      match defaultDifference t r.catalog with
      | some ⟨name, _, true⟩ => mismatch "DEFAULT" "none" ("DEFAULT on " ++ quote name)
      | some ⟨name, _, false⟩ => mismatch "DEFAULT" ("DEFAULT on " ++ quote name) "none"
      | none => .ok (.ok ())

/-! ### Shapes compare by an equivalence -/

/-- A foreign key has as many columns as referenced ones. -/
def Shape.Paired (s : Shape) : Prop :=
  s.kind = "FOREIGN KEY" → s.columns.length = s.references.length

/-- **Equal constraints**: the kind is the same, the referenced table is, and so are the columns
of a key or a CHECK, or the pairs of a foreign key, with their multiplicities, ignoring case. -/
def Same (a b : Shape) : Prop :=
  a.kind = b.kind ∧ lowercase a.table = lowercase b.table ∧
    if a.kind = "FOREIGN KEY" then
      ((lower a.columns).zip (lower a.references)).Perm ((lower b.columns).zip (lower b.references))
    else (lower a.columns).Perm (lower b.columns)

instance : DecidableRel Same := fun a b => by
  unfold Same
  infer_instance

theorem same_equivalence : Equivalence Same where
  refl a := ⟨rfl, rfl, by split <;> exact .refl _⟩
  symm := by
    rintro a b ⟨hk, ht, hc⟩
    refine ⟨hk.symm, ht.symm, ?_⟩
    rw [← hk]
    split at hc
    case isTrue h => rw [if_pos h]; exact hc.symm
    case isFalse h => rw [if_neg h]; exact hc.symm
  trans := by
    rintro a b c ⟨hk, ht, hc⟩ ⟨hk', ht', hc'⟩
    refine ⟨hk.trans hk', ht.trans ht', ?_⟩
    rw [← hk] at hc'
    split at hc
    case isTrue h => rw [if_pos h] at hc' ⊢; exact hc.trans hc'
    case isFalse h => rw [if_neg h] at hc' ⊢; exact hc.trans hc'

theorem insertionSort_eq_iff {α : Type} [LinearOrder α] {l m : List α} :
    l.insertionSort (· ≤ ·) = m.insertionSort (· ≤ ·) ↔ l.Perm m := by
  constructor
  · intro h
    exact (List.perm_insertionSort _ l).symm.trans (h ▸ List.perm_insertionSort _ m)
  · intro h
    have hp := ((List.perm_insertionSort (· ≤ ·) l).trans h).trans
      (List.perm_insertionSort (· ≤ ·) m).symm
    exact hp.eq_of_pairwise' (List.pairwise_insertionSort _ _) (List.pairwise_insertionSort _ _)

section Search

variable {a b e : Shape} {l m : List Shape}

theorem pairs_eq (h : a.Paired) (hk : a.kind = "FOREIGN KEY") : pairs a =
    .ok ((((lower a.columns).zip (lower a.references)).map toLex).insertionSort (· ≤ ·)) := by
  have hl : (lower a.columns).length = (lower a.references).length := by
    simpa [lower] using h hk
  rw [pairs, zipExn, if_pos hl]
  rfl

theorem same_eq (ha : a.Paired) (hb : b.Paired) : same a b = .ok (decide (Same a b)) := by
  rw [same]
  split
  case isFalse h =>
    have hn : ¬ Same a b := fun hs => h ⟨hs.1, decide_eq_true hs.2.1⟩
    rw [decide_eq_false hn]
  case isTrue h =>
    obtain ⟨hk, ht⟩ := h
    have ht : lowercase a.table = lowercase b.table := of_decide_eq_true ht
    split
    case isTrue hf =>
      rw [pairs_eq hb (hk ▸ hf), pairs_eq ha hf]
      change Except.ok _ = Except.ok _
      congr 1
      rw [decide_eq_decide, insertionSort_eq_iff, Same, if_pos hf]
      simp only [hk, ht, true_and]
      exact List.map_perm_map_iff toLex.injective
    case isFalse hf =>
      rw [sameSet]
      congr 1
      rw [decide_eq_decide, insertionSort_eq_iff, Same, if_neg hf]
      simp only [hk, ht, true_and]

theorem firstSame_eq (he : e.Paired) (hl : ∀ a ∈ l, a.Paired) :
    firstSame e l = .ok (l.findIdx? (Same e ·)) := by
  induction l with
  | nil => rfl
  | cons a l ih =>
    rw [firstSame, same_eq he (hl a (List.mem_cons_self ..)),
      ih fun b hb => hl b (List.mem_cons_of_mem _ hb), List.findIdx?_cons]
    by_cases hs : Same e a <;> simp [hs, bind, Except.bind, pure, Except.pure]

/-- On paired shapes the search is the one of the relation `Same`. -/
theorem unmatched_eq (hl : ∀ a ∈ l, a.Paired) (hm : ∀ a ∈ m, a.Paired) :
    unmatched l m = .ok (Matching.unmatched (Same · ·) l m) := by
  induction l generalizing m with
  | nil => rfl
  | cons e l ih =>
    rw [unmatched, firstSame_eq (hl e (List.mem_cons_self ..)) hm, Matching.unmatched]
    change (match m.findIdx? (Same e ·) with | none => _ | some i => _) = _
    cases m.findIdx? (Same e ·) with
    | none => rfl
    | some i =>
      exact ih (fun a ha => hl a (List.mem_cons_of_mem _ ha))
        fun a ha => hm a (List.mem_of_mem_eraseIdx ha)

end Search

/-! ### The verdict -/

/-- What a catalog holds: columns of different names ignoring case, and foreign keys that pair
their columns with the referenced ones. -/
structure Rows.Valid (r : Rows) : Prop where
  distinct : (r.catalog.map (lowercase ·.name)).Nodup
  paired : ∀ k ∈ r.kinds, k.kind = "FOREIGN KEY" →
    (ofIndex r.columns k.index).length = (ofIndex r.references k.index).length

/-- **A catalog without differences**: declared columns have the declared nullability; different
declared constraints are equal to different constraints or indexes of the catalog, and different
constraints of the catalog to different declared ones; declared columns have a default exactly
when one is declared. -/
structure Agrees (t : TableDef) (r : Rows) : Prop where
  nullability : ∀ c ∈ t.columns, ∀ a ∈ r.catalog, lowercase a.name = lowercase c.1 →
    a.nullable = Codec.isNullable c.2
  declared : Injects Same (declaredShapes t.constraints)
    (actualShapes r ++ indexedShapes r.indexes)
  catalog : Injects Same (actualShapes r) (declaredShapes t.constraints)
  defaults : ∀ a ∈ r.catalog, (∃ c ∈ t.columns, lowercase c.1 = lowercase a.name) →
    (a.hasDefault = true ↔ ∃ column sql constant,
      .default column sql constant ∈ t.constraints ∧ lowercase column = lowercase a.name)

section Verdict

variable {t : TableDef} {r r' : Rows}

theorem paired_declaredShapes (ht : Declared t) : ∀ s ∈ declaredShapes t.constraints, s.Paired := by
  intro s hs hk
  obtain ⟨c, hc, he⟩ := List.mem_filterMap.mp hs
  cases c with
  | foreignKey columns table references =>
    cases he
    exact ht.paired hc
  | primaryKey | unique | check =>
    cases he
    simp at hk
  | default => cases he

theorem paired_actualShapes (hr : r.Valid) : ∀ s ∈ actualShapes r, s.Paired := by
  intro s hs hk
  obtain ⟨k, hm, rfl⟩ := List.mem_map.mp hs
  exact hr.paired k hm hk

theorem paired_indexedShapes (indexes : List IndexRow) :
    ∀ s ∈ indexedShapes indexes, s.Paired := by
  intro s hs hk
  obtain ⟨index, -, he⟩ := List.mem_filterMap.mp hs
  dsimp only at he
  split at he
  · cases he
    simp at hk
  · cases he

theorem nullabilityDifference_eq_none (hr : r.Valid) : nullabilityDifference t r.catalog = none ↔
    ∀ c ∈ t.columns, ∀ a ∈ r.catalog, lowercase a.name = lowercase c.1 →
      a.nullable = Codec.isNullable c.2 := by
  rw [nullabilityDifference, List.findSome?_eq_none_iff]
  constructor
  · intro h c hc a ha hn
    have hcol := h ⟨c.1, sqlType c.2, Codec.isNullable c.2⟩ (List.mem_map_of_mem hc)
    cases hf : r.catalog.find? fun a => caselessEqual a.name c.1 with
    | none =>
      have := List.find?_eq_none.mp hf a ha
      simp [caselessEqual, hn] at this
    | some b =>
      have hb : lowercase b.name = lowercase c.1 := of_decide_eq_true (List.find?_some hf :)
      -- the row that is found is the only one of the name
      obtain rfl : a = b := List.inj_on_of_nodup_map hr.distinct ha (List.mem_of_find?_eq_some hf)
        (hn.trans hb.symm)
      rw [hf] at hcol
      by_contra hne
      simp [hne] at hcol
  · intro h c hc
    obtain ⟨d, hd, rfl⟩ := List.mem_map.mp hc
    split
    case h_1 a hf =>
      have ha : lowercase a.name = lowercase d.1 := of_decide_eq_true (List.find?_some hf :)
      rw [if_neg (not_not.mpr (h d hd a (List.mem_of_find?_eq_some hf) ha))]
    case h_2 => rfl

theorem defaulted_iff (constraints : List TableConstraint) (name : String) :
    defaulted constraints name = true ↔ ∃ column sql constant,
      .default column sql constant ∈ constraints ∧ lowercase column = lowercase name := by
  rw [defaulted, List.any_eq_true]
  constructor
  · rintro ⟨c, hc, he⟩
    cases c with
    | default column sql constant => exact ⟨column, sql, constant, hc, of_decide_eq_true he⟩
    | _ => cases he
  · rintro ⟨column, sql, constant, hc, he⟩
    exact ⟨_, hc, decide_eq_true he⟩

theorem defaultDifference_eq_none : defaultDifference t r.catalog = none ↔
    ∀ a ∈ r.catalog, (∃ c ∈ t.columns, lowercase c.1 = lowercase a.name) →
      (a.hasDefault = true ↔ ∃ column sql constant,
        .default column sql constant ∈ t.constraints ∧ lowercase column = lowercase a.name) := by
  rw [defaultDifference, List.find?_eq_none]
  refine forall₂_congr fun a _ => ?_
  rw [← defaulted_iff, Bool.and_eq_true, not_and, List.any_eq_true, bne_iff_ne, ne_eq, not_not,
    Bool.eq_iff_iff]
  simp only [caselessEqual, decide_eq_true_iff]

/-- The comparison returns a verdict, which is `Ok` exactly when the catalog agrees. -/
theorem compareCatalog_verdict (ht : Declared t) (hr : r.Valid) :
    ∃ verdict, compareCatalog t r = .ok verdict ∧ (verdict = .ok () ↔ Agrees t r) := by
  -- neither of the two searches runs into an unpaired list
  have hdeclared := unmatched_eq (paired_declaredShapes ht) (m := actualShapes r ++
    indexedShapes r.indexes) fun s hs => (List.mem_append.mp hs).elim (paired_actualShapes hr s)
      (paired_indexedShapes _ s)
  have hcatalog := unmatched_eq (paired_actualShapes hr) (paired_declaredShapes ht)
  -- the four comparisons are the four parts of the agreement
  have hagrees : Agrees t r ↔ nullabilityDifference t r.catalog = none ∧
      Matching.unmatched (Same · ·) (declaredShapes t.constraints)
        (actualShapes r ++ indexedShapes r.indexes) = none ∧
      Matching.unmatched (Same · ·) (actualShapes r) (declaredShapes t.constraints) = none ∧
      defaultDifference t r.catalog = none := by
    rw [nullabilityDifference_eq_none hr, unmatched_eq_none_iff same_equivalence,
      unmatched_eq_none_iff same_equivalence, defaultDifference_eq_none]
    exact ⟨fun h => ⟨h.1, h.2, h.3, h.4⟩, fun ⟨h₁, h₂, h₃, h₄⟩ => ⟨h₁, h₂, h₃, h₄⟩⟩
  rw [hagrees]
  unfold compareCatalog
  dsimp only
  rw [hdeclared, hcatalog]
  cases nullabilityDifference t r.catalog with
  | some d => exact ⟨_, rfl, by simp⟩
  | none =>
    cases Matching.unmatched (Same · ·) (declaredShapes t.constraints)
        (actualShapes r ++ indexedShapes r.indexes) with
    | some e => exact ⟨_, rfl, by simp⟩
    | none =>
      cases Matching.unmatched (Same · ·) (actualShapes r) (declaredShapes t.constraints) with
      | some e => exact ⟨_, rfl, by simp⟩
      | none =>
        rcases defaultDifference t r.catalog with _ | ⟨name, nullable, _ | _⟩
        · exact ⟨_, rfl, by simp⟩
        · exact ⟨_, rfl, by simp⟩
        · exact ⟨_, rfl, by simp⟩

/-! ### The order of the rows -/

/-- The same catalog with its rows in another order: those of a key's columns among themselves,
and those of a foreign key's together with the referenced ones. -/
structure Rows.Reordered (r r' : Rows) : Prop where
  catalog : r.catalog.Perm r'.catalog
  kinds : r.kinds.Perm r'.kinds
  columns : ∀ k ∈ r.kinds, k.kind ≠ "FOREIGN KEY" →
    (ofIndex r.columns k.index).Perm (ofIndex r'.columns k.index)
  pairs : ∀ k ∈ r.kinds, k.kind = "FOREIGN KEY" →
    ((ofIndex r.columns k.index).zip (ofIndex r.references k.index)).Perm
      ((ofIndex r'.columns k.index).zip (ofIndex r'.references k.index))
  indexes : r.indexes.Perm r'.indexes

theorem Rows.Reordered.symm (h : r.Reordered r') : r'.Reordered r where
  catalog := h.catalog.symm
  kinds := h.kinds.symm
  columns k hk hne := (h.columns k (h.kinds.mem_iff.mpr hk) hne).symm
  pairs k hk hf := (h.pairs k (h.kinds.mem_iff.mpr hk) hf).symm
  indexes := h.indexes.symm

/-- Constraints of the reordered catalog are equal to those of the catalog. -/
theorem Rows.Reordered.actualShapes (h : r.Reordered r') :
    ∃ m, (Schema.actualShapes r).Perm m ∧ List.Forall₂ Same m (Schema.actualShapes r') := by
  refine ⟨_, h.kinds.map _, ?_⟩
  rw [Schema.actualShapes, List.forall₂_map_left_iff, List.forall₂_map_right_iff,
    List.forall₂_same]
  intro k hk
  have hk := h.kinds.mem_iff.mpr hk
  refine ⟨rfl, rfl, ?_⟩
  split
  case isTrue hf =>
    have := (h.pairs k hk hf).map (Prod.map lowercase lowercase)
    simpa only [lower, List.zip_map] using this
  case isFalse hf => exact (h.columns k hk hf).map _

theorem indexedShapes_perm {indexes indexes' : List IndexRow} (h : indexes.Perm indexes') :
    List.Forall₂ Same (indexedShapes indexes) (indexedShapes indexes') := by
  have hnames : (indexes.map IndexRow.index).dedup.insertionSort (· ≤ ·) =
      (indexes'.map IndexRow.index).dedup.insertionSort (· ≤ ·) :=
    insertionSort_eq_iff.mpr (h.map _).dedup
  rw [indexedShapes, indexedShapes, hnames]
  refine List.rel_filterMap (R := Eq) ?_ (List.forall₂_eq_eq_eq ▸ rfl)
  rintro index _ rfl
  have hcolumns : ((indexes.filter (·.index = index)).map IndexRow.expression).Perm
      ((indexes'.filter (·.index = index)).map IndexRow.expression) := (h.filter _).map _
  have hplain := hcolumns.filterMap indexColumn
  dsimp only
  rw [hcolumns.length_eq, hplain.length_eq]
  split
  · refine .some ⟨rfl, rfl, ?_⟩
    rw [if_neg (by simp)]
    exact hplain.map _
  · exact .none

theorem Agrees.reorder (h : r.Reordered r') (ha : Agrees t r) : Agrees t r' where
  nullability c hc a hm := ha.nullability c hc a (h.catalog.mem_iff.mpr hm)
  declared := by
    obtain ⟨m, hm, hs⟩ := h.actualShapes
    have hp := (injects_perm same_equivalence (.refl _) (hm.append_right _)).mp ha.declared
    exact hp.trans_forall₂ same_equivalence
      (List.rel_append hs (indexedShapes_perm h.indexes))
  catalog := by
    obtain ⟨m, hm, hs⟩ := h.symm.actualShapes
    have hp : Injects Same m (declaredShapes t.constraints) :=
      ha.catalog.of_forall₂ same_equivalence hs
    exact (injects_perm same_equivalence hm (.refl _)).mpr hp
  defaults a hm := ha.defaults a (h.catalog.mem_iff.mpr hm)

end Verdict

/-- **Catalog comparison is exact.** For every declaration and every content of the catalog the
comparison returns a verdict, which is `Ok` exactly when the catalog agrees with the declaration,
and which is the same for the rows of the catalog in any order. -/
theorem compareCatalog_iff {t : TableDef} (ht : Declared t) {r : Rows} (hr : r.Valid) :
    (∃ verdict, compareCatalog t r = .ok verdict ∧ (verdict = .ok () ↔ Agrees t r)) ∧
    ∀ r' : Rows, r'.Valid → r.Reordered r' →
      (compareCatalog t r' = .ok (.ok ()) ↔ compareCatalog t r = .ok (.ok ())) := by
  have hok : ∀ {r : Rows}, r.Valid → (compareCatalog t r = .ok (.ok ()) ↔ Agrees t r) := by
    intro r hr
    obtain ⟨verdict, hv, hiff⟩ := compareCatalog_verdict ht hr
    rw [hv, Except.ok.injEq, hiff]
  refine ⟨compareCatalog_verdict ht hr, fun r' hr' h => ?_⟩
  rw [hok hr, hok hr']
  exact ⟨fun ha => ha.reorder h.symm, fun ha => ha.reorder h⟩

/-- A table with a key. -/
def users : TableDef :=
  ⟨"main", "users", [("id", .nonNull (.identity .int64))], [.primaryKey ["id"]]⟩

/-- A table with two keys, a reference to `users` and a default. -/
def posts : TableDef :=
  ⟨"main", "posts", [("id", .nonNull (.identity .int64)), ("author", .nonNull (.identity .int64)),
    ("slug", .nonNull (.identity .string)), ("title", .nullable (.identity .string))],
    [.primaryKey ["id"], .unique ["slug"], .foreignKey ["author"] "users" ["id"],
      .default "title" "'untitled'" (some "'untitled'")]⟩

def postsConstraints : List Constraint :=
  [.primaryKey [(0, "id")], .unique [(0, "slug")], .foreignKey [(0, "author")] "main\x00users" ["id"],
    .default (0, "title") (scalarNode (.string "untitled"))]

theorem declares_posts : Declares posts 0 postsConstraints where
  declares := rfl
  isPublic x hx := by
    have key : ∀ name plan, (name, Codec.nonNull plan) ∈ posts.columns →
        KeyOf posts.columns 0 [(0, name)] := fun name plan h c hc _ => by
      rw [List.mem_singleton.mp hc]
      exact ⟨plan, h⟩
    simp only [postsConstraints, List.mem_cons, List.not_mem_nil, or_false] at hx
    obtain rfl | rfl | rfl | rfl := hx
    · exact key "id" (.identity .int64) (by simp [posts])
    · exact key "slug" (.identity .string) (by simp [posts])
    · exact ⟨key "author" (.identity .int64) (by simp [posts]),
        [⟨0, "author", .nonNull (.identity .int64)⟩], users, 0, binders users.columns 0, rfl⟩
    · exact ⟨fun _ => by simp [posts], fun _ _ _ => ⟨_, rfl⟩⟩

/-- What the catalog may hold of it: a unique index in place of the UNIQUE constraint, the others in
another order, and an index over an expression. -/
def postsRows : Rows where
  catalog := [⟨"slug", false, false⟩, ⟨"ID", false, false⟩, ⟨"title", true, true⟩,
    ⟨"author", false, false⟩]
  kinds := [⟨4, "FOREIGN KEY", "users"⟩, ⟨2, "PRIMARY KEY", ""⟩]
  columns := [⟨2, "id"⟩, ⟨4, "author"⟩]
  references := [⟨4, "id"⟩]
  indexes := [⟨"posts_slug", "slug"⟩, ⟨"posts_title", "lower(title)"⟩]

theorem compareCatalog_posts :
    Agrees posts postsRows ∧ ∀ r' : Rows, r'.Valid → postsRows.Reordered r' →
      compareCatalog posts r' = .ok (.ok ()) := by
  have hvalid : postsRows.Valid := ⟨by decide, by decide⟩
  obtain ⟨⟨verdict, hv, hiff⟩, horder⟩ := compareCatalog_iff ⟨_, _, declares_posts⟩ hvalid
  have hok : compareCatalog posts postsRows = .ok (.ok ()) := rfl
  obtain rfl : verdict = .ok () := Except.ok.inj (hv.symm.trans hok)
  exact ⟨hiff.mp rfl, fun r' hr' h => (horder r' hr' h).mpr hok⟩

end DuckdbMl.Schema
