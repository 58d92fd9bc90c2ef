import DuckdbMl.Schema.Declare
import DuckdbMl.Sql.Literal

/-!
# Tables: CREATE TABLE and the canonical text

## Main definitions

* `specs`: name, SQL type and nullability of each declared column
* `ddl`: the CREATE TABLE statement of a declaration
* `canonical`: the text of a declaration that a migration's checksum covers
* `Declares`, `Declared`: tables that `declare` accepts

## Main results

* `Declared.paired`: a declared foreign key pairs its columns
-/

namespace DuckdbMl.Schema

open Sql

def Codec.isNullable : Codec → Bool
  | .nonNull _ => false
  | .nullable _ => true

/-- One column of a declaration: name, SQL type, nullability. -/
structure Spec where
  name : String
  sqlType : String
  nullable : Bool
  deriving DecidableEq, Repr

def specs (columns : List (String × Codec)) : List Spec :=
  columns.map fun c => ⟨c.1, sqlType c.2, Codec.isNullable c.2⟩

/-- The default of a column: the first one declared for it. -/
def defaultOf (constraints : List TableConstraint) (name : String) : Option String :=
  constraints.findSome? fun
    | .default column sql _ => if column = name then some sql else none
    | _ => none

def columnClause (constraints : List TableConstraint) (c : Spec) : String :=
  quote c.name ++ " " ++ c.sqlType ++ (if c.nullable then "" else " NOT NULL") ++
    ((defaultOf constraints c.name).map (" DEFAULT " ++ ·)).getD ""

def constraintClause (schema : String) : TableConstraint → Option String
  | .primaryKey names => some ("PRIMARY KEY " ++ quoted names)
  | .unique names => some ("UNIQUE " ++ quoted names)
  | .foreignKey columns other references => some ("FOREIGN KEY " ++ quoted columns ++
    " REFERENCES " ++ quote schema ++ "." ++ quote other ++ " " ++ quoted references)
  | .check sql _ => some ("CHECK (" ++ sql ++ ")")
  | .default _ _ _ => none

/-- The CREATE TABLE statement of a declaration. -/
def ddl (t : TableDef) : String :=
  "CREATE TABLE " ++ targetOf t ++ " (" ++ String.intercalate ", "
    ((specs t.columns).map (columnClause t.constraints) ++
      t.constraints.filterMap (constraintClause t.schema)) ++ ")"

def listed (names : List String) : String := String.intercalate "," names

def nullness (nullable : Bool) : String := if nullable then "null" else "not null"

def canonicalConstraint : TableConstraint → String
  | .primaryKey names => "primary key " ++ listed names
  | .unique names => "unique " ++ listed names
  | .foreignKey columns table references =>
    "foreign key " ++ listed columns ++ " references " ++ table ++ " " ++ listed references
  | .check sql _ => "check " ++ sql
  | .default column sql _ => "default " ++ column ++ " " ++ sql

/-- The declaration's structure as text, independent of how the DDL is spelled. -/
def canonical (t : TableDef) : String :=
  String.intercalate "\n" (("table " ++ t.schema ++ "." ++ t.name) ::
    ((specs t.columns).map fun c =>
      "column " ++ c.name ++ " " ++ c.sqlType ++ " " ++ nullness c.nullable) ++
    t.constraints.map canonicalConstraint)

/-- Columns that the declaration bound are non-null columns of the table. -/
def KeyOf (columns : List (String × Codec)) (scope : ℕ) (key : List (ℕ × String)) : Prop :=
  ∀ c ∈ key, c.1 = scope → ∃ plan, (c.2, .nonNull plan) ∈ columns

/-- What the constructors build over the columns bound in `scope`: keys of non-null columns,
foreign keys that `foreignKey` accepts, and defaults of columns that are, if literals, those of
values. -/
def Constraint.Public (columns : List (String × Codec)) (scope : ℕ) : Constraint → Prop
  | .primaryKey key | .unique key => KeyOf columns scope key
  | .foreignKey key table references => KeyOf columns scope key ∧ ∃ key' other scope' target,
    Schema.foreignKey key' other scope' target = .ok (.foreignKey key table references)
  | .default c a => (c.1 = scope → c.2 ∈ columns.map Prod.fst) ∧ PublicLiteral a
  | .check _ => True

/-- The table is the declaration of the constraints, whose columns were bound in `scope`. -/
structure Declares (t : TableDef) (scope : ℕ) (constraints : List Constraint) : Prop where
  declares : declare t.schema t.name t.columns scope (fun _ => .ok constraints) = .ok t
  isPublic : ∀ x ∈ constraints, Constraint.Public t.columns scope x

def Declared (t : TableDef) : Prop := ∃ scope constraints, Declares t scope constraints

/-- Each constraint of a declared table is resolved from a public one. -/
theorem Declares.resolved {t : TableDef} {scope : ℕ} {constraints : List Constraint}
    (h : Declares t scope constraints) {c : TableConstraint} (hc : c ∈ t.constraints) :
    ∃ x ∈ constraints, Constraint.Public t.columns scope x ∧ Resolved scope x c := by
  obtain ⟨hlen, hget⟩ := List.forall₂_iff_get.mp (forall₂_of_declare h.declares)
  obtain ⟨⟨i, hi⟩, rfl⟩ := List.mem_iff_get.mp hc
  have hx := List.get_mem constraints ⟨i, hlen ▸ hi⟩
  exact ⟨_, hx, h.isPublic _ hx, resolved_of_ok (hget i (hlen ▸ hi) hi)⟩

/-- A default is declared for a column of the table. -/
theorem Declares.default {t : TableDef} {scope : ℕ} {constraints : List Constraint}
    (h : Declares t scope constraints) {column sql : String} {constant : Option String}
    (hc : .default column sql constant ∈ t.constraints) :
    ∃ d a, column ∈ t.columns.map Prod.fst ∧ PublicLiteral a ∧ constant = constantOf a ∧
      Constraint.default d a ∈ constraints := by
  obtain ⟨x, hx, hp, hr⟩ := h.resolved hc
  cases x with
  | default d a =>
    obtain ⟨ps, -, -, hs, hd⟩ := hr
    cases hd
    exact ⟨d, a, hp.1 hs, hp.2, rfl, hx⟩
  | primaryKey | unique | check =>
    obtain ⟨_, _, hd⟩ := hr
    cases hd
  | foreignKey =>
    obtain ⟨_, _, _, hd⟩ := hr
    cases hd

/-- A constant of a declared table is a quoted string. -/
theorem Declared.quoted {t : TableDef} (h : Declared t) {column sql constant : String}
    (hc : .default column sql (some constant) ∈ t.constraints) : ∃ v, constant = quoteString v := by
  obtain ⟨scope, constraints, hd⟩ := h
  obtain ⟨d, a, -, hp, hconst, -⟩ := hd.default hc
  cases a with
  | literal sql' constant' =>
    cases hconst
    exact constant_of_publicLiteral hp
  | _ => cases hconst

theorem length_of_foreignKey {key : List Column} {other : TableDef} {scope : ℕ}
    {target : List Column} {columns : List (ℕ × String)} {table : String}
    {references : List String}
    (h : foreignKey key other scope target = .ok (.foreignKey columns table references)) :
    columns.length = references.length := by
  unfold foreignKey at h
  dsimp only at h
  split at h
  · cases h
  split at h
  · cases h
  split at h
  · cases h
  case isFalse hkeys =>
    cases h
    have := congrArg List.length (Decidable.not_not.mp hkeys)
    simpa [keyTypes, keyColumns] using this

/-- **A declared foreign key pairs its columns** with the referenced ones. -/
theorem Declared.paired {t : TableDef} (h : Declared t) {columns references : List String}
    {table : String} (hc : .foreignKey columns table references ∈ t.constraints) :
    columns.length = references.length := by
  obtain ⟨scope, constraints, hd⟩ := h
  obtain ⟨x, -, hp, hr⟩ := hd.resolved hc
  cases x with
  | foreignKey key table' references' =>
    obtain ⟨l, other, hn, he⟩ := hr
    cases he
    obtain ⟨-, key', other', scope', target, hf⟩ := hp
    rw [← length_of_foreignKey hf, ← (forall₂_of_mapM hn).length_eq]
  | primaryKey | unique | check =>
    obtain ⟨_, _, he⟩ := hr
    cases he
  | default =>
    obtain ⟨_, _, _, _, he⟩ := hr
    cases he

end DuckdbMl.Schema
