import Mathlib.Data.Int.Notation
import Mathlib.Data.List.Basic

/-!
# Typed SQL: expressions, selects and rendered text

Expressions are untyped nodes; a column and a parameter carry the scope (one `from` or `query`
call) that bound them. Rendering gives text with its structure kept: the column references, the
table occurrences and the selects that a text is made of, so that the text can be read by SQL's
rules of scope.

## Main definitions

* `Scalar`, `Plan`, `Codec`: what a value crosses the native boundary as
* `Node`, `WindowSpec`, `Order`, `Join`, `Body`, `Source`: the syntax of a query
* `Node.uses`, `Source.uses`: the columns and parameters of a query, and what is visible there
* `Fragment`: rendered text
* `resolve`: what a column reference denotes by SQL's innermost-scope rule
-/

namespace DuckdbMl.Sql

/-! ### Codecs -/

inductive Scalar
  | bool | int8 | int16 | int32 | int64 | float32 | float64 | string | blob | date
  | timestampS | timestampMs | timestampUs | timestampNs | timestampTz
  deriving DecidableEq, Repr

def Scalar.name : Scalar → String
  | .bool => "BOOLEAN"
  | .int8 => "TINYINT"
  | .int16 => "SMALLINT"
  | .int32 => "INTEGER"
  | .int64 => "BIGINT"
  | .float32 => "FLOAT"
  | .float64 => "DOUBLE"
  | .string => "VARCHAR"
  | .blob => "BLOB"
  | .date => "DATE"
  | .timestampS => "TIMESTAMP_S"
  | .timestampMs => "TIMESTAMP_MS"
  | .timestampUs => "TIMESTAMP"
  | .timestampNs => "TIMESTAMP_NS"
  | .timestampTz => "TIMESTAMPTZ"

/-- The conversion of a codec: none, or a custom one, told apart by its identity. -/
inductive Plan
  | identity (scalar : Scalar)
  | plan (id : ℕ) (scalar : Scalar)
  deriving DecidableEq, Repr

def Plan.scalar : Plan → Scalar
  | .identity scalar => scalar
  | .plan _ scalar => scalar

inductive Codec
  | nonNull (plan : Plan)
  | nullable (plan : Plan)
  deriving DecidableEq, Repr

def Codec.plan : Codec → Plan
  | .nonNull plan => plan
  | .nullable plan => plan

/-! ### Syntax -/

inductive JoinKind
  | inner | left | cross
  deriving DecidableEq, Repr

mutual

/-- An expression. -/
inductive Node where
  | column (scope : ℕ) (name : String)
  | param (scope : ℕ) (index : ℕ) (sqlType : String)
  | literal (sql : String) (constant : Option String)
  | apply (name : String) (args : List Node)
  | infixOp (op : String) (a b : Node)
  | prefixOp (op : String) (a : Node)
  | postfixOp (a : Node) (op : String)
  | cast (a : Node) (sqlType : String)
  | countStar
  | existsIn (s : Source)
  | inSubquery (a : Node) (s : Source)
  | scalar (s : Source)
  | over (f : Node) (w : WindowSpec)

/-- A window: PARTITION BY, ORDER BY and a rendered frame. -/
structure WindowSpec where
  partition : List Node
  order : List Order
  frame : Option String

structure Order where
  key : Node
  descending : Bool

/-- A joined table; `on` is absent for a CROSS JOIN. -/
structure Join where
  kind : JoinKind
  target : String
  scope : ℕ
  on : Option Node

/-- A select. -/
structure Body where
  columns : List Codec
  list : List Node
  distinct : Bool
  joins : List Join
  where_ : Option Node
  groupBy : List Node
  having : Option Node
  qualify : Option Node
  orderBy : List Order
  limit : Option ℤ
  offset : Option ℤ

inductive Source where
  | select (target : String) (scope : ℕ) (body : Body)
  | set (op : String) (left right : Source)

end

/-- The codecs of a source's rows are those of its left-most select. -/
def Source.leftmost : Source → Body
  | .select _ _ body => body
  | .set _ left _ => left.leftmost

/-! ### Declared tables -/

/-- A declared table constraint, by column name, with its expressions rendered. -/
inductive TableConstraint
  | primaryKey (names : List String)
  | unique (names : List String)
  | foreignKey (columns : List String) (table : String) (references : List String)
  | check (sql : String) (columns : List String)
  | default (column sql : String) (constant : Option String)
  deriving DecidableEq, Repr

/-- A declared table. -/
structure TableDef where
  schema : String
  name : String
  columns : List (String × Codec)
  constraints : List TableConstraint

/-! ### Uses -/

/-- A column or a parameter. -/
inductive Use
  | column (scope : ℕ) (name : String)
  | param (scope : ℕ)
  deriving DecidableEq, Repr

/-- A table of a FROM or JOIN clause, or the target of a write. -/
structure Table where
  scope : ℕ
  target : String
  deriving DecidableEq, Repr

def Join.table (j : Join) : Table := ⟨j.scope, j.target⟩

/-- A use and the tables visible where it occurs, those of the innermost select first. -/
structure Place where
  visible : List Table
  use : Use
  deriving DecidableEq, Repr

/-- A column is in scope where its table is visible, a parameter in its own query. -/
def Place.InScope (params : Option ℕ) (p : Place) : Prop :=
  match p.use with
  | .column scope _ => scope ∈ p.visible.map Table.scope
  | .param scope => params = some scope

instance {params : Option ℕ} {p : Place} : Decidable (p.InScope params) := by
  unfold Place.InScope
  split <;> infer_instance

def Use.isColumn : Use → Bool
  | .column _ _ => true
  | .param _ => false

/-- The places of columns. -/
def columnPlaces (l : List Place) : List Place := l.filter (·.use.isColumn)

mutual

/-- The columns and parameters of an expression, where the tables `visible` are in scope. -/
def Node.uses (visible : List Table) : Node → List Place
  | .column scope name => [⟨visible, .column scope name⟩]
  | .param scope _ _ => [⟨visible, .param scope⟩]
  | .literal _ _ => []
  | .apply _ args => nodesUses visible args
  | .infixOp _ a b => a.uses visible ++ b.uses visible
  | .prefixOp _ a => a.uses visible
  | .postfixOp a _ => a.uses visible
  | .cast a _ => a.uses visible
  | .countStar => []
  | .existsIn s => s.uses visible
  | .inSubquery a s => a.uses visible ++ s.uses visible
  | .scalar s => s.uses visible
  | .over f ⟨partition, order, _⟩ =>
    f.uses visible ++ nodesUses visible partition ++ ordersUses visible order

def nodesUses (visible : List Table) : List Node → List Place
  | [] => []
  | a :: rest => a.uses visible ++ nodesUses visible rest

def ordersUses (visible : List Table) : List Order → List Place
  | [] => []
  | ⟨key, _⟩ :: rest => key.uses visible ++ ordersUses visible rest

def clauseUses (visible : List Table) : Option Node → List Place
  | none => []
  | some a => a.uses visible

def joinsUses (visible : List Table) : List Join → List Place
  | [] => []
  | ⟨_, _, _, on⟩ :: rest => clauseUses visible on ++ joinsUses visible rest

/-- A select's own tables are in scope in all its clauses, before those of the selects
around it. -/
def Source.uses (visible : List Table) : Source → List Place
  | .select target scope ⟨_, list, _, joins, where_, groupBy, having, qualify, orderBy, _, _⟩ =>
    let inner := ⟨scope, target⟩ :: joins.map Join.table ++ visible
    nodesUses inner list ++ joinsUses inner joins ++ clauseUses inner where_ ++
      nodesUses inner groupBy ++ clauseUses inner having ++ clauseUses inner qualify ++
      ordersUses inner orderBy
  | .set _ left right => left.uses visible ++ right.uses visible

end

/-! ### Text -/

/-- A table in a text, under its alias. -/
structure Occurrence extends Table where
  aliasName : Option String
  deriving DecidableEq, Repr

/-- A piece of rendered text. The scope of a column is the one its node carries; it is not part
of the text. -/
inductive Fragment
  | raw (text : String)
  | column (qualifier : Option String) (name : String) (scope : ℕ)
  | table (occurrence : Occurrence)
  | select (pieces : List Fragment)

/-- An identifier between double quotes, those inside doubled. -/
def quote (name : String) : String :=
  "\"" ++ String.ofList (name.toList.flatMap fun c => if c = '"' then ['"', '"'] else [c]) ++ "\""

def targetOf (t : TableDef) : String := quote t.schema ++ "." ++ quote t.name

mutual

def Fragment.text : Fragment → String
  | .raw text => text
  | .column none name _ => quote name
  | .column (some qualifier) name _ => qualifier ++ "." ++ quote name
  | .table ⟨⟨_, target⟩, none⟩ => target
  | .table ⟨⟨_, target⟩, some aliasName⟩ => target ++ " AS " ++ aliasName
  | .select pieces => textOf pieces

/-- The text that fragments make up. -/
def textOf : List Fragment → String
  | [] => ""
  | f :: rest => f.text ++ textOf rest

end

/-! ### Resolution -/

/-- The table answers to a column reference. An unqualified name is a column of it; `columns`
gives the column names of each table. -/
def Occurrence.Answers (columns : String → List String) (qualifier : Option String)
    (name : String) (t : Occurrence) : Prop :=
  match qualifier with
  | some q => t.aliasName = some q
  | none => name ∈ columns t.target

instance {columns : String → List String} {qualifier : Option String} {name : String} :
    DecidablePred (Occurrence.Answers columns qualifier name) := fun t => by
  unfold Occurrence.Answers
  split <;> infer_instance

/-- **SQL's innermost-scope rule**: the select closest to the reference that has a table which
answers decides; several answering tables in it are an error. -/
def resolve (columns : String → List String) (qualifier : Option String) (name : String) :
    List (List Occurrence) → Option Occurrence
  | [] => none
  | level :: outer =>
    match level.filter (Occurrence.Answers columns qualifier name ·) with
    | [] => resolve columns qualifier name outer
    | [t] => some t
    | _ => none

/-- A column reference of a text, with the tables of the selects around it, innermost first. -/
structure Reference where
  levels : List (List Occurrence)
  qualifier : Option String
  name : String
  scope : ℕ
  deriving DecidableEq, Repr

/-- Where the reference occurs. -/
def Reference.place (r : Reference) : Place :=
  ⟨r.levels.flatten.map Occurrence.toTable, .column r.scope r.name⟩

/-- The table that bound the reference: the closest one of its scope. -/
def Reference.binder (r : Reference) : Option Occurrence :=
  r.levels.flatten.find? (·.scope = r.scope)

/-- The text denotes the table that bound the reference. -/
def Reference.Denotes (columns : String → List String) (r : Reference) : Prop :=
  r.binder.isSome ∧ resolve columns r.qualifier r.name r.levels = r.binder

/-- The tables in the clauses of one select, those of its subqueries left out. -/
def tables : List Fragment → List Occurrence
  | [] => []
  | .table t :: rest => t :: tables rest
  | _ :: rest => tables rest

mutual

/-- The column references of a text. -/
def Fragment.references (levels : List (List Occurrence)) : Fragment → List Reference
  | .raw _ => []
  | .column qualifier name scope => [⟨levels, qualifier, name, scope⟩]
  | .table _ => []
  | .select pieces => references (tables pieces :: levels) pieces

def references (levels : List (List Occurrence)) : List Fragment → List Reference
  | [] => []
  | f :: rest => f.references levels ++ references levels rest

end

mutual

/-- The table occurrences of a text, at any depth. -/
def Fragment.occurrences : Fragment → List Occurrence
  | .raw _ => []
  | .column _ _ _ => []
  | .table t => [t]
  | .select pieces => occurrences pieces

def occurrences : List Fragment → List Occurrence
  | [] => []
  | f :: rest => f.occurrences ++ occurrences rest

end

/-! ### Lemmas about text -/

variable {levels : List (List Occurrence)} {a b : List Fragment}

@[simp] theorem references_append :
    references levels (a ++ b) = references levels a ++ references levels b := by
  induction a with
  | nil => rfl
  | cons f rest ih => simp only [List.cons_append, references, ih, List.append_assoc]

@[simp] theorem occurrences_append : occurrences (a ++ b) = occurrences a ++ occurrences b := by
  induction a with
  | nil => rfl
  | cons f rest ih => simp only [List.cons_append, occurrences, ih, List.append_assoc]

@[simp] theorem tables_append : tables (a ++ b) = tables a ++ tables b := by
  induction a with
  | nil => rfl
  | cons f rest ih => cases f <;> simp only [List.cons_append, tables, ih]

end DuckdbMl.Sql
