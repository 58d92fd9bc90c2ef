import DuckdbMl.Joining.Pieces
import DuckdbMl.Migration.Basic
import DuckdbMl.Schema.Ddl

/-!
# Migrations: what a checksum covers

The checksum of a step digests its canonical text: the declaration's structure for a step made
from a declaration, the statement for the others. The canonical text joins unquoted names, types
and expressions with plain separators.

## Main definitions

* `Change`, `Change.kind`: what a step is made from, and the step's work
* `Change.pieces`: the words, names, types and expressions that the canonical text is joined from
* `Covers`: an edit of a step that changes its statements is reported
* `DeclarationText`: the texts that a declaration's canonical text can be

## Main results

* `toList_canonical`: a canonical text is its pieces, joined
* `covers_iff`: an edit that changes the statements is reported exactly when the pieces of the two
  steps do not overlap
* `covered_iff`: the steps whose every edit is reported are the statements that are no
  `DeclarationText`
-/

namespace DuckdbMl.Migration

open Sql Schema Joining

/-! ### Kinds -/

def statements (list : List String) : Kind := .statements list (String.intercalate "\n" list)

def sql (statement : String) : Kind := statements [statement]

def create (t : TableDef) : Kind := .statements [ddl t] ("create " ++ canonical t)

def target (schema name : String) : String := quote schema ++ "." ++ quote name

def dropTable (schema name : String) : Kind := statements ["DROP TABLE " ++ target schema name]

def dropColumn (schema table name : String) : Kind :=
  statements ["ALTER TABLE " ++ target schema table ++ " DROP COLUMN " ++ quote name]

def renameTable (schema name new : String) : Kind :=
  statements ["ALTER TABLE " ++ target schema name ++ " RENAME TO " ++ quote new]

def renameColumn (schema table name new : String) : Kind :=
  statements ["ALTER TABLE " ++ target schema table ++ " RENAME COLUMN " ++ quote name ++ " TO " ++
    quote new]

/-- The constraint is on the column. -/
def constrains (name : String) : TableConstraint → Bool
  | .primaryKey columns | .unique columns | .check _ columns | .foreignKey columns _ _ =>
    name ∈ columns
  | .default _ _ _ => false

/-- The first default declared for the column, as a constant if it has that spelling. -/
def defaultConstant (constraints : List TableConstraint) (name : String) :
    Option (Option String) :=
  constraints.findSome? fun
    | .default column _ constant => if column = name then some constant else none
    | _ => none

/-- The DEFAULT clause of an added column, which takes only a quoted constant. -/
def addedDefault (constraints : List TableConstraint) (name : String) :
    Except Sql.Exn (Option String) :=
  match defaultConstant constraints name with
  | none => .ok none
  | some (some constant) => .ok (some (" DEFAULT " ++ constant))
  | some none =>
    invalidArg "Duckdb.Migration.add_column: the column's default must be a literal"

/-- The statements that add a column; a non-null one is added with its default, then set
NOT NULL. -/
def added (t : TableDef) (name : String) (spec : Spec) (default : Option String) : Kind :=
  .statements
    (("ALTER TABLE " ++ target t.schema t.name ++ " ADD COLUMN " ++ quote name ++ " " ++
      spec.sqlType ++ default.getD "") ::
      if spec.nullable then []
      else ["ALTER TABLE " ++ target t.schema t.name ++ " ALTER COLUMN " ++ quote name ++
        " SET NOT NULL"])
    ("add column " ++ t.schema ++ "." ++ t.name ++ " " ++ name ++ " " ++ spec.sqlType ++ " " ++
      nullness spec.nullable ++ default.getD "")

/-- ADD COLUMN of the column that `pick` chose among those bound in `scope`. -/
def addColumn (t : TableDef) (scope : ℕ) (pick : List Column → Column) : Except Sql.Exn Kind :=
  let c := pick (Schema.binders t.columns scope)
  if c.scope ≠ scope then Schema.foreign
  else if t.constraints.any (constrains c.name) then
    invalidArg ("Duckdb.Migration.add_column: DuckDB cannot add a column with a key, CHECK or " ++
      "foreign key")
  else match (specs t.columns).find? (·.name = c.name) with
    -- a column of the fresh scope is one of the table's
    | none => invalidArg "List.find_map_exn"
    | some spec => do
      let default ← addedDefault t.constraints c.name
      return added t c.name spec default

/-- A step; `digest` is the hash of its checksum. -/
def step (digest : String → String) (version : ℤ) (name : String) (kind : Kind) : Step :=
  match kind with
  | .statements _ canonical => ⟨version, name, digest canonical, kind⟩
  | .run => ⟨version, name, digest name, kind⟩

/-- What a step other than code is made from. -/
inductive Change
  | create (t : TableDef)
  | addColumn (t : TableDef) (scope : ℕ) (pick : List Column → Column)
  | dropTable (schema name : String)
  | dropColumn (schema table name : String)
  | renameTable (schema name new : String)
  | renameColumn (schema table name new : String)
  | sql (statement : String)

def Change.kind : Change → Except Sql.Exn Kind
  | .create t => .ok (Migration.create t)
  | .addColumn t scope pick => Migration.addColumn t scope pick
  | .dropTable schema name => .ok (Migration.dropTable schema name)
  | .dropColumn schema table name => .ok (Migration.dropColumn schema table name)
  | .renameTable schema name new => .ok (Migration.renameTable schema name new)
  | .renameColumn schema table name new => .ok (Migration.renameColumn schema table name new)
  | .sql statement => .ok (Migration.sql statement)

/-- The table of a step made from a declaration is a declared one. -/
def Change.Declared : Change → Prop
  | .create t | .addColumn t _ _ => Schema.Declared t
  | _ => True

def Built (k : Kind) : Prop := ∃ c : Change, c.Declared ∧ c.kind = .ok k

def Kind.canonical : Kind → String
  | .statements _ canonical => canonical
  | .run => ""

/-- **A checksum covers what a step executes**: when `k` was applied and is edited to `k'`, either
they execute the same statements, or their canonical texts are not the same and the edit is
reported as a mismatch, whatever the other steps and the rest of the history. -/
structure Covers (digest : String → String) (k k' : Kind) : Prop where
  statements : k'.canonical = k.canonical → k'.list = k.list
  reported : k'.list ≠ k.list → ∀ version name before after later,
    pending (before ++ step digest version name k' :: after)
        (before.map Step.row ++ (step digest version name k).row :: later) =
      mismatch version name (describe version name (step digest version name k').checksum)
        (describe version name (step digest version name k).checksum)

/-! ### The pieces of a step -/

def pieces (first : String) (rest : List (Char × String)) : Pieces Char :=
  ⟨first.toList, rest.map fun x => (x.1, x.2.toList)⟩

/-- A list of names after a blank; the empty list reads as one empty name. -/
def listedPieces : List String → List (Char × String)
  | [] => [(' ', "")]
  | name :: rest => (' ', name) :: rest.map fun other => (',', other)

def columnPieces (c : Spec) : List (Char × String) :=
  [('\n', "column"), (' ', c.name), (' ', c.sqlType), (' ', nullness c.nullable)]

def constraintPieces : TableConstraint → List (Char × String)
  | .primaryKey names => ('\n', "primary key") :: listedPieces names
  | .unique names => ('\n', "unique") :: listedPieces names
  | .foreignKey columns table references => ('\n', "foreign key") :: listedPieces columns ++
    (' ', "references") :: (' ', table) :: listedPieces references
  | .check sql _ => [('\n', "check"), (' ', sql)]
  | .default column sql _ => [('\n', "default"), (' ', column), (' ', sql)]

/-- The pieces of an added column; its default stands with the word for its nullability. -/
def addedPieces (t : TableDef) (name : String) (spec : Spec) (default : Option String) :
    Pieces Char :=
  pieces "add column" [(' ', t.schema), ('.', t.name), (' ', name), (' ', spec.sqlType),
    (' ', nullness spec.nullable ++ default.getD "")]

/-- The words, names, types and expressions of a declaration, in their order; any other step is
one piece, its statement. -/
def Change.pieces : Change → Pieces Char
  | .create t => Migration.pieces "create table" ((' ', t.schema) :: ('.', t.name) ::
    ((specs t.columns).flatMap columnPieces ++ t.constraints.flatMap constraintPieces))
  | .addColumn t scope pick =>
    let name := (pick (Schema.binders t.columns scope)).name
    match (specs t.columns).find? (·.name = name), addedDefault t.constraints name with
    | some spec, .ok default => addedPieces t name spec default
    | _, _ => Migration.pieces "" []
  | .dropTable schema name => Migration.pieces ("DROP TABLE " ++ target schema name) []
  | .dropColumn schema table name =>
    Migration.pieces ("ALTER TABLE " ++ target schema table ++ " DROP COLUMN " ++ quote name) []
  | .renameTable schema name new =>
    Migration.pieces ("ALTER TABLE " ++ target schema name ++ " RENAME TO " ++ quote new) []
  | .renameColumn schema table name new =>
    Migration.pieces ("ALTER TABLE " ++ target schema table ++ " RENAME COLUMN " ++ quote name ++
      " TO " ++ quote new) []
  | .sql statement => Migration.pieces statement []

/-- The text reads as the canonical text of a created table, or of an added column with a default
that is a quoted string. -/
def DeclarationText (s : String) : Prop :=
  (∃ schema rest, s = "create table " ++ schema ++ "." ++ rest) ∨
  ∃ schema table column scalar nullable default,
    s = "add column " ++ schema ++ "." ++ table ++ " " ++ column ++ " " ++ Scalar.name scalar ++
      " " ++ nullness nullable ++ default ∧
    (default = "" ∨ ∃ v, default = " DEFAULT " ++ quoteString v)

/-! ### Canonical texts -/

theorem exists_intercalate_cons (sep a : String) (l : List String) :
    ∃ tail, String.intercalate sep (a :: l) = a ++ tail := by
  cases l with
  | nil => exact ⟨"", by simp⟩
  | cons b rest => exact ⟨sep ++ String.intercalate sep (b :: rest), by
      rw [String.intercalate_cons_cons, String.append_assoc]⟩

theorem canonical_of_create (t : TableDef) : DeclarationText (create t).canonical := by
  obtain ⟨tail, ht⟩ := exists_intercalate_cons "\n" ("table " ++ t.schema ++ "." ++ t.name)
    (((specs t.columns).map fun c =>
      "column " ++ c.name ++ " " ++ c.sqlType ++ " " ++ nullness c.nullable) ++
      t.constraints.map canonicalConstraint)
  refine .inl ⟨t.schema, t.name ++ tail, ?_⟩
  have hc : canonical t = "table " ++ t.schema ++ "." ++ t.name ++ tail := ht
  have hk : (create t).canonical = "create " ++ canonical t := rfl
  have htable : "create table " = "create " ++ "table " := by decide
  rw [hk, hc, htable]
  simp only [String.append_assoc]

theorem exists_of_defaultConstant {constraints : List TableConstraint} {name : String}
    {constant : Option String} (h : defaultConstant constraints name = some constant) :
    ∃ sql, .default name sql constant ∈ constraints := by
  obtain ⟨c, hc, he⟩ := List.exists_of_findSome?_eq_some h
  cases c with
  | default column sql constant' =>
    dsimp only at he
    split at he
    · subst column
      obtain rfl := Option.some_inj.mp he
      exact ⟨sql, hc⟩
    · cases he
  | _ => cases he

/-- The default of an added column is a constant declared for it. -/
theorem addedDefault_eq_ok {constraints : List TableConstraint} {name : String}
    {default : Option String} (h : addedDefault constraints name = .ok default) :
    default = none ∨ ∃ sql constant,
      .default name sql (some constant) ∈ constraints ∧
        default = some (" DEFAULT " ++ constant) := by
  unfold addedDefault at h
  split at h
  case h_1 => exact .inl (Except.ok.inj h).symm
  case h_2 constant hf =>
    obtain ⟨sql, hc⟩ := exists_of_defaultConstant hf
    exact .inr ⟨sql, constant, hc, (Except.ok.inj h).symm⟩
  case h_3 => cases h

/-- The column is added with its type and its constant default when no key, CHECK or foreign key
is on it. -/
theorem addColumn_eq_ok {t : TableDef} {scope : ℕ} {pick : List Column → Column} {c : Column}
    (hc : pick (Schema.binders t.columns scope) = c) {k : Kind} :
    addColumn t scope pick = .ok k ↔ c.scope = scope ∧ ¬ t.constraints.any (constrains c.name) ∧
      ∃ spec default, (specs t.columns).find? (·.name = c.name) = some spec ∧
        addedDefault t.constraints c.name = .ok default ∧ k = added t c.name spec default := by
  unfold addColumn
  rw [hc]
  dsimp only
  split
  case isTrue hs => simp [Schema.foreign, invalidArg, hs]
  case isFalse hs =>
    split
    case isTrue hf => simp [invalidArg, hf]
    case isFalse hf =>
      cases (specs t.columns).find? (·.name = c.name) with
      | none => simp [invalidArg]
      | some spec =>
        cases addedDefault t.constraints c.name with
        | error e => simp [bind, Except.bind]
        | ok default =>
          simp [bind, Except.bind, pure, Except.pure, Decidable.not_not.mp hs, hf, eq_comm]

theorem canonical_of_addColumn {t : TableDef} {scope : ℕ} {pick : List Column → Column} {k : Kind}
    (h : Declared t) (hk : addColumn t scope pick = .ok k) : DeclarationText k.canonical := by
  obtain ⟨-, -, spec, default, hspec, hd, rfl⟩ := (addColumn_eq_ok rfl).mp hk
  obtain ⟨column, hcolumn, rfl⟩ := List.mem_map.mp (List.mem_of_find?_eq_some hspec)
  refine .inr ⟨t.schema, t.name, _, column.2.plan.scalar, Codec.isNullable column.2,
    default.getD "", rfl, ?_⟩
  rcases addedDefault_eq_ok hd with rfl | ⟨sql, constant, hc, rfl⟩
  · exact .inl rfl
  · obtain ⟨v, rfl⟩ := h.quoted hc
    exact .inr ⟨v, rfl⟩

/-- The statement of a step is also its canonical text. -/
@[simp] theorem canonical_sql (statement : String) : (sql statement).canonical = statement :=
  String.intercalate_singleton (s := "\n")

theorem head_append (a b : String) (c : Char) (h : a.toList.head? = some c) :
    (a ++ b).toList.head? = some c := by
  rw [String.toList_append, List.head?_append, h, Option.some_or]

/-- Canonical texts of declarations are in lower case. -/
theorem head_of_declarationText {s : String} (h : DeclarationText s) :
    s.toList.head? = some 'c' ∨ s.toList.head? = some 'a' := by
  rcases h with ⟨schema, rest, rfl⟩ | ⟨schema, table, column, scalar, nullable, default, rfl, -⟩
  · simp only [String.append_assoc]
    exact .inl (head_append _ _ _ (by decide))
  · simp only [String.append_assoc]
    exact .inr (head_append _ _ _ (by decide))

theorem head_of_added (t : TableDef) (name : String) (spec : Spec) (default : Option String) :
    ∃ s rest, (added t name spec default).list = s :: rest ∧ s.toList.head? = some 'A' := by
  refine ⟨_, _, rfl, ?_⟩
  simp only [String.append_assoc]
  exact head_append _ _ _ (by decide)

/-- A step made from a declaration executes something else than its canonical text. -/
theorem list_create_ne (t : TableDef) : (create t).list ≠ [(create t).canonical] := by
  intro he
  have hddl : (ddl t).toList.head? = some 'C' := by
    rw [ddl]
    simp only [String.append_assoc]
    exact head_append _ _ _ (by decide)
  rw [(List.cons.inj he).1] at hddl
  rcases head_of_declarationText (canonical_of_create t) with hc | hc <;>
    · rw [hc] at hddl
      cases hddl

theorem list_addColumn_ne {t : TableDef} {scope : ℕ} {pick : List Column → Column} {k : Kind}
    (h : Declared t) (hk : addColumn t scope pick = .ok k) : k.list ≠ [k.canonical] := by
  intro he
  have hcanonical := canonical_of_addColumn h hk
  obtain ⟨-, -, spec, default, -, -, rfl⟩ := (addColumn_eq_ok rfl).mp hk
  obtain ⟨s, rest, hl, hs⟩ := head_of_added _ _ spec default
  rw [hl] at he
  rw [(List.cons.inj he).1] at hs
  rcases head_of_declarationText hcanonical with hc | hc <;>
    · rw [hc] at hs
      cases hs

/-- A kind is one statement, or is made from a declaration. -/
theorem Built.cases {k : Kind} (h : Built k) : (∃ statement, k = Migration.sql statement) ∨
    DeclarationText k.canonical ∧ k.list ≠ [k.canonical] := by
  obtain ⟨c, hd, hk⟩ := h
  cases c with
  | create t =>
    cases hk
    exact .inr ⟨canonical_of_create t, list_create_ne t⟩
  | addColumn => exact .inr ⟨canonical_of_addColumn hd hk, list_addColumn_ne hd hk⟩
  | dropTable | dropColumn | renameTable | renameColumn | sql =>
    cases hk
    exact .inl ⟨_, rfl⟩

/-! ### Canonical texts are their pieces, joined -/

theorem toList_intercalate (sep a : String) (l : List String) :
    (String.intercalate sep (a :: l)).toList =
      a.toList ++ l.flatMap fun b => sep.toList ++ b.toList := by
  induction l generalizing a with
  | nil => simp
  | cons b rest ih =>
    rw [String.intercalate_cons_cons, String.toList_append, String.toList_append, ih,
      List.flatMap_cons]
    simp only [List.append_assoc]

/-- The text of pieces that follow others. -/
def spell (l : List (Char × String)) : List Char := l.flatMap fun x => x.1 :: x.2.toList

@[simp] theorem spell_nil : spell [] = [] := rfl

@[simp] theorem spell_cons (c : Char) (a : String) (l : List (Char × String)) :
    spell ((c, a) :: l) = c :: a.toList ++ spell l := rfl

@[simp] theorem spell_append (l m : List (Char × String)) :
    spell (l ++ m) = spell l ++ spell m := List.flatMap_append

theorem spell_flatMap {β : Type} (f : β → List (Char × String)) (l : List β) :
    spell (l.flatMap f) = l.flatMap fun b => spell (f b) := List.flatMap_assoc ..

theorem join_pieces (first : String) (rest : List (Char × String)) :
    (pieces first rest).join = first.toList ++ spell rest := by
  simp [pieces, Pieces.join, spell, List.flatMap_map]

theorem spell_listedPieces (names : List String) :
    spell (listedPieces names) = ' ' :: (listed names).toList := by
  cases names with
  | nil => rfl
  | cons name rest =>
    rw [Schema.listed, toList_intercalate, listedPieces, spell_cons]
    simp [spell, List.flatMap_map]

theorem spell_constraintPieces (c : TableConstraint) :
    spell (constraintPieces c) = '\n' :: (canonicalConstraint c).toList := by
  cases c <;>
    simp [constraintPieces, canonicalConstraint, spell_listedPieces, String.toList_append]

theorem toList_create (t : TableDef) :
    (create t).canonical.toList = (Change.create t).pieces.join := by
  have hk : (create t).canonical = "create " ++ canonical t := rfl
  rw [hk, canonical, String.toList_append, List.cons_append, toList_intercalate, Change.pieces,
    join_pieces]
  simp [spell_flatMap, spell_constraintPieces, columnPieces, List.flatMap_append, List.flatMap_map]

theorem toList_added (t : TableDef) (name : String) (spec : Spec) (default : Option String) :
    (added t name spec default).canonical.toList = (addedPieces t name spec default).join := by
  rw [addedPieces, join_pieces]
  simp [added, Kind.canonical]

theorem toList_canonical {c : Change} {k : Kind} (hk : c.kind = .ok k) :
    k.canonical.toList = c.pieces.join := by
  cases c with
  | create t =>
    cases hk
    exact toList_create t
  | addColumn t scope pick =>
    obtain ⟨-, -, spec, default, hspec, hd, rfl⟩ := (addColumn_eq_ok rfl).mp hk
    rw [toList_added, Change.pieces, hspec, hd]
  | dropTable | dropColumn | renameTable | renameColumn | sql =>
    cases hk
    rw [Change.pieces, join_pieces, spell_nil, List.append_nil]
    exact congrArg String.toList (canonical_sql _)

/-! ### Every such text is a canonical one -/

/-- The table without columns, whose canonical text is its name alone. -/
theorem exists_create (schema rest : String) :
    ∃ k, Built k ∧ k.list ≠ [k.canonical] ∧
      k.canonical = "create table " ++ schema ++ "." ++ rest := by
  have hdeclared : Schema.Declared ⟨schema, rest, [], []⟩ := ⟨0, [], rfl, by simp⟩
  refine ⟨create ⟨schema, rest, [], []⟩, ⟨.create _, hdeclared, rfl⟩, list_create_ne _, ?_⟩
  have hc : canonical ⟨schema, rest, [], []⟩ = "table " ++ schema ++ "." ++ rest :=
    String.intercalate_singleton (s := "\n")
  have htable : "create table " = "create " ++ "table " := by decide
  have hk : (create ⟨schema, rest, [], []⟩).canonical =
      "create " ++ canonical ⟨schema, rest, [], []⟩ := rfl
  rw [hk, hc, htable]
  simp only [String.append_assoc]

theorem declare_stringDefault (schema table column v : String) (codec : Codec) :
    declare schema table [(column, codec)] 0
        (fun _ => .ok [.default (0, column) (stringNode v)]) =
      .ok ⟨schema, table, [(column, codec)],
        [.default column (quoteString v) (some (quoteString v))]⟩ := by
  have htext : textOf [.raw (quoteString v)] = quoteString v := by simp [textOf, Fragment.text]
  change Except.ok (⟨schema, table, [(column, codec)],
    [.default column (textOf [.raw (quoteString v)]) (some (quoteString v))]⟩ : TableDef) = _
  rw [htext]

/-- A table of one column, with a default given as a string: a custom codec of strings has any
scalar. -/
theorem exists_addColumn (schema table column : String) (scalar : Scalar) (nullable : Bool)
    {default : String} (hd : default = "" ∨ ∃ v, default = " DEFAULT " ++ quoteString v) :
    ∃ k, Built k ∧ k.list ≠ [k.canonical] ∧
      k.canonical = "add column " ++ schema ++ "." ++ table ++ " " ++ column ++ " " ++
        scalar.name ++ " " ++ nullness nullable ++ default := by
  let codec : Codec := if nullable then .nullable (.plan 0 scalar) else .nonNull (.plan 0 scalar)
  have hspec : ∀ constraints, (specs (TableDef.mk schema table [(column, codec)]
      constraints).columns).find? (·.name = column) = some ⟨column, scalar.name, nullable⟩ := by
    intro constraints
    cases nullable <;> simp [specs, codec, sqlType, Codec.isNullable, Codec.plan, Plan.scalar]
  rcases hd with rfl | ⟨v, rfl⟩
  · have hdeclared : Schema.Declared ⟨schema, table, [(column, codec)], []⟩ := ⟨0, [], rfl, by simp⟩
    have hk : addColumn ⟨schema, table, [(column, codec)], []⟩ 0 (fun _ => ⟨0, column, codec⟩) =
        .ok (added _ column ⟨column, scalar.name, nullable⟩ none) :=
      (addColumn_eq_ok rfl).mpr ⟨rfl, by simp, _, none, hspec [], rfl, rfl⟩
    exact ⟨_, ⟨.addColumn _ 0 fun _ => ⟨0, column, codec⟩, hdeclared, hk⟩,
      list_addColumn_ne hdeclared hk, rfl⟩
  · let constraints : List TableConstraint :=
      [.default column (quoteString v) (some (quoteString v))]
    have hdefault : addedDefault constraints column =
        .ok (some (" DEFAULT " ++ quoteString v)) := by
      simp [constraints, addedDefault, defaultConstant]
    have hdeclared : Schema.Declared ⟨schema, table, [(column, codec)], constraints⟩ := by
      refine ⟨0, _, declare_stringDefault schema table column v codec, fun x hx => ?_⟩
      rw [List.mem_singleton.mp hx]
      exact ⟨fun _ => List.mem_singleton_self _, fun _ _ _ => ⟨.string v, rfl⟩⟩
    have hk : addColumn ⟨schema, table, [(column, codec)], constraints⟩ 0
          (fun _ => ⟨0, column, codec⟩) =
        .ok (added _ column ⟨column, scalar.name, nullable⟩
          (some (" DEFAULT " ++ quoteString v))) :=
      (addColumn_eq_ok rfl).mpr ⟨rfl, by simp [constraints, constrains], _, _,
        hspec constraints, hdefault, rfl⟩
    exact ⟨_, ⟨.addColumn _ 0 fun _ => ⟨0, column, codec⟩, hdeclared, hk⟩,
      list_addColumn_ne hdeclared hk, rfl⟩

/-! ### What is covered -/

/-- A step of another checksum than the recorded one is a mismatch, after any applied steps. -/
theorem pending_mismatch (digest : String → String) (version : ℤ) (name : String) {k k' : Kind}
    (hne : (step digest version name k').checksum ≠ (step digest version name k).checksum)
    (before after : List Step) (later : List Row) :
    pending (before ++ step digest version name k' :: after)
        (before.map Step.row ++ (step digest version name k).row :: later) =
      mismatch version name (describe version name (step digest version name k').checksum)
        (describe version name (step digest version name k).checksum) := by
  have hstep : ∀ k, (step digest version name k).version = version ∧
      (step digest version name k).name = name := fun k => by cases k <;> exact ⟨rfl, rfl⟩
  induction before with
  | nil =>
    simp only [List.nil_append, List.map_nil, pending, Step.row, (hstep k).1, (hstep k).2,
      (hstep k').1, (hstep k').2, lt_irrefl, if_false, hne, and_false]
  | cons s rest ih =>
    simp only [List.cons_append, List.map_cons, pending, Step.row, lt_irrefl, if_false, and_self,
      if_true]
    exact ih

theorem checksum_of_kind (digest : String → String) (version : ℤ) (name : String) {c : Change}
    {k : Kind} (hk : c.kind = .ok k) :
    (step digest version name k).checksum = digest k.canonical := by
  cases c with
  | addColumn =>
    obtain ⟨-, -, spec, default, -, -, rfl⟩ := (addColumn_eq_ok rfl).mp hk
    rfl
  | _ =>
    cases hk
    rfl

theorem overlaps_iff_canonical {c c' : Change} {k k' : Kind} (hk : c.kind = .ok k)
    (hk' : c'.kind = .ok k') : Overlaps c'.pieces c.pieces ↔ k'.canonical = k.canonical := by
  rw [overlaps_iff, ← toList_canonical hk, ← toList_canonical hk', String.toList_inj]

/-- **What a checksum covers.** With a digest free of collisions, an edit of a step that changes
what it executes is reported exactly when the pieces of the two do not overlap: where they first
differ, neither piece goes on with the other and the separator after it, or what follows the
separator differs again. -/
theorem covers_iff {digest : String → String} (hdigest : digest.Injective) {c c' : Change}
    {k k' : Kind} (hk : c.kind = .ok k) (hk' : c'.kind = .ok k') (hedit : k'.list ≠ k.list) :
    Covers digest k k' ↔ ¬ Overlaps c'.pieces c.pieces := by
  rw [overlaps_iff_canonical hk hk']
  constructor
  · intro h hc
    exact hedit (h.statements hc)
  · intro hc
    refine ⟨fun h => absurd h hc, fun _ version name before after later =>
      pending_mismatch digest version name (fun h => hc (hdigest ?_)) before after later⟩
    rwa [checksum_of_kind digest version name hk', checksum_of_kind digest version name hk] at h

/-- Every edit of a step is covered only if it is a statement that does not read as a
declaration's canonical text: a declaration's text is always also that of a raw statement. -/
theorem covered_iff {digest : String → String} (hdigest : digest.Injective) {k : Kind}
    (hk : Built k) : (∀ k', Built k' → Covers digest k k') ↔
      ∃ statement, k = Migration.sql statement ∧ ¬ DeclarationText statement := by
  constructor
  · intro h
    rcases hk.cases with ⟨statement, rfl⟩ | ⟨-, hne⟩
    · refine ⟨statement, rfl, fun hd => ?_⟩
      -- a declaration with this text shares the checksum, and runs something else
      have hbuilt : ∃ k', Built k' ∧ k'.list ≠ [k'.canonical] ∧ k'.canonical = statement := by
        rcases hd with ⟨schema, rest, rfl⟩ | ⟨schema, table, column, scalar, nullable, default, rfl,
          hdefault⟩
        · exact exists_create schema rest
        · exact exists_addColumn schema table column scalar nullable hdefault
      obtain ⟨k', hk', hne, hc⟩ := hbuilt
      refine hne ?_
      rw [hc]
      exact (h k' hk').statements (hc.trans (canonical_sql statement).symm)
    · have hraw : Built (Migration.sql k.canonical) := ⟨.sql _, trivial, rfl⟩
      exact absurd ((h _ hraw).statements (canonical_sql _)).symm hne
  · rintro ⟨statement, rfl, hd⟩ k' hk'
    by_cases he : k'.list = (Migration.sql statement).list
    · exact ⟨fun _ => he, fun hne => absurd he hne⟩
    have hcases := hk'.cases
    obtain ⟨c', -, hc'⟩ := hk'
    refine (covers_iff hdigest (rfl : (Change.sql statement).kind = .ok _) hc' he).mpr ?_
    rw [overlaps_iff_canonical rfl hc', canonical_sql]
    intro hc
    rcases hcases with ⟨other, rfl⟩ | ⟨ht, -⟩
    · rw [canonical_sql] at hc
      exact he (congrArg (fun s => (Migration.sql s).list) hc)
    · exact hd (hc ▸ ht)

/-- A table of non-null numbers. -/
def numbers (names : List String) (constraints : List TableConstraint) : TableDef :=
  ⟨"main", "t", names.map fun name => (name, .nonNull (.identity .int64)), constraints⟩

/-- Another column in the declaration is reported. -/
theorem covers_numbers :
    Covers id (create (numbers ["a"] [])) (create (numbers ["a", "b"] [])) :=
  (covers_iff Function.injective_id (rfl : (Change.create (numbers ["a"] [])).kind = .ok _)
    (rfl : (Change.create (numbers ["a", "b"] [])).kind = .ok _) (by decide)).mpr (by decide)

/-- A table whose third column joins the names of the others. -/
def keyed (key : List String) : TableDef := numbers ["a", "b", "a,b"] [.primaryKey key]

theorem built_keyed (key : List String) (hn : ∀ name ∈ key, name ∈ ["a", "b", "a,b"])
    (hd : declare "main" "t" (keyed key).columns 0
      (fun _ => .ok [.primaryKey (key.map fun name => (0, name))]) = .ok (keyed key)) :
    Built (create (keyed key)) := by
  refine ⟨.create _, ⟨0, _, hd, fun x hx => ?_⟩, rfl⟩
  rw [List.mem_singleton.mp hx]
  intro c hc _
  obtain ⟨name, hname, rfl⟩ := List.mem_map.mp hc
  exact ⟨.identity .int64, List.mem_map.mpr ⟨name, hn name hname, rfl⟩⟩

/-- A key over two columns may become one over the third. -/
theorem not_covers_keyed : Built (create (keyed ["a", "b"])) ∧ Built (create (keyed ["a,b"])) ∧
    ¬ Covers id (create (keyed ["a", "b"])) (create (keyed ["a,b"])) := by
  refine ⟨built_keyed _ (by decide) rfl, built_keyed _ (by decide) rfl, fun h => ?_⟩
  have hsame := h.statements (by decide)
  revert hsame
  decide

end DuckdbMl.Migration
