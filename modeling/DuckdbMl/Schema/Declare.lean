import DuckdbMl.Sql.Mentioned

/-!
# Tables: declarations

A declaration's callback builds constraints over the table's columns, bound in a fresh scope;
resolving them checks the scope, renders CHECK and DEFAULT expressions without a qualifier and
records the columns that each CHECK mentions.

## Main definitions

* `Constraint`: a constraint as the callback builds it
* `foreignKey`, `resolve`, `declare`: building and resolving declarations
* `Mentions`: a declaration records the columns that its clauses refer to

## Main results

* `forall₂_of_declare`, `resolved_of_ok`: each constraint of a declaration resolves on its own
* `mentions_iff`: the columns are recorded exactly when those used in subqueries and in left operands
  of IN are also used elsewhere
-/

namespace DuckdbMl.Schema

open Sql

/-- A declared table column, as table constraints bind it. -/
structure Column where
  scope : ℕ
  name : String
  codec : Codec

def Column.node (c : Column) : Node := .column c.scope c.name

def binders (columns : List (String × Codec)) (scope : ℕ) : List Column :=
  columns.map fun c => ⟨scope, c.1, c.2⟩

def keyColumns (key : List Column) : List (ℕ × String) := key.map fun c => (c.scope, c.name)

/-- The SQL type a codec crosses the native boundary as. -/
def sqlType (codec : Codec) : String := codec.plan.scalar.name

def keyTypes (key : List Column) : List String := key.map fun c => sqlType c.codec

/-- A constraint as the callback builds it: columns carry the scope they were bound in, and
expressions are unrendered. -/
inductive Constraint
  | primaryKey (columns : List (ℕ × String))
  | unique (columns : List (ℕ × String))
  | foreignKey (columns : List (ℕ × String)) (table : String) (references : List String)
  | check (a : Node)
  | default (column : ℕ × String) (a : Node)

def foreign {α : Type} : Except Sql.Exn α := invalidArg "Duckdb.Sql: an expression from another query"

/-- A foreign key to the table `other`, whose columns are bound in `scope`; `target` is what the
callback answered. -/
def foreignKey (key : List Column) (other : TableDef) (scope : ℕ) (target : List Column) :
    Except Sql.Exn Constraint :=
  let references := target.map Column.name
  if target.any (·.scope ≠ scope) then foreign
  else if references ∉ declaredKeys other then
    invalidArg ("Duckdb.Table: a foreign key must reference a declared primary or unique key, " ++
      "in its column order")
  else if keyTypes key ≠ keyTypes target then
    invalidArg "Duckdb.Table: a foreign key's columns must have the SQL types of the referenced key"
  else .ok (.foreignKey (keyColumns key) (other.schema ++ "\x00" ++ other.name) references)

/-- The texts before and after the first `on`. -/
def lsplit2 (s : String) (on : Char) : Option (String × String) :=
  match s.toList.dropWhile (· ≠ on) with
  | [] => none
  | _ :: rest => some (String.ofList (s.toList.takeWhile (· ≠ on)), String.ofList rest)

def names (scope : ℕ) (columns : List (ℕ × String)) : Except Sql.Exn (List String) :=
  columns.mapM fun c => if c.1 ≠ scope then foreign else .ok c.2

/-- A literal as a quoted SQL constant, for where only constants are accepted. -/
def constantOf : Node → Option String
  | .literal _ constant => constant
  | _ => none

/-- Renders a constraint against the declaration's scope. -/
def resolveConstraint (schema : String) (scope : ℕ) : Constraint → Except Sql.Exn TableConstraint
  | .primaryKey columns => do return .primaryKey (← names scope columns)
  | .unique columns => do return .unique (← names scope columns)
  | .foreignKey columns table references =>
    match lsplit2 table '\x00' with
    | some (otherSchema, other) =>
      if otherSchema = schema then do return .foreignKey (← names scope columns) other references
      else invalidArg "Duckdb.Table: a foreign key must reference a table in the same schema"
    | none => invalidArg "Duckdb.Table: a foreign key must reference a table in the same schema"
  | .check a => do return .check (textOf (← renderBare scope a)) (mentioned a)
  | .default (s, name) a =>
    if mentioned a ≠ [] then invalidArg "Duckdb.Table: a default cannot mention a column"
    else do
      let text ← renderBare scope a
      if s ≠ scope then foreign else return .default name (textOf text) (constantOf a)

def TableConstraint.isPrimaryKey : TableConstraint → Bool
  | .primaryKey _ => true
  | _ => false

def resolve (schema : String) (scope : ℕ) (constraints : List Constraint) :
    Except Sql.Exn (List TableConstraint) := do
  let resolved ← constraints.mapM (resolveConstraint schema scope)
  if resolved.countP TableConstraint.isPrimaryKey > 1 then
    invalidArg "Duckdb.Table: at most one primary key"
  else return resolved

/-- A declaration; `constraints` is the callback, and `scope` the one its columns are bound
in. -/
def declare (schema name : String) (columns : List (String × Codec)) (scope : ℕ)
    (constraints : List Column → Except Sql.Exn (List Constraint)) : Except Sql.Exn TableDef := do
  let constraints ← constraints (binders columns scope)
  let constraints ← resolve schema scope constraints
  return ⟨schema, name, columns, constraints⟩

/-! ### Resolving -/

theorem forall₂_of_mapM {α β : Type} {f : α → Except Sql.Exn β} {l : List α} {r : List β}
    (h : l.mapM f = .ok r) : List.Forall₂ (fun x y => f x = .ok y) l r := by
  induction l generalizing r with
  | nil =>
    cases h
    exact .nil
  | cons x rest ih =>
    rw [List.mapM_cons] at h
    cases hx : f x with
    | error e => rw [hx] at h; cases h
    | ok y =>
      cases hr : rest.mapM f with
      | error e => rw [hx, hr] at h; cases h
      | ok ys =>
        rw [hx, hr] at h
        cases h
        exact .cons hx (ih hr)

section Declare

variable {schema name : String} {columns : List (String × Codec)} {scope : ℕ}
  {constraints : List Constraint} {d : TableDef}

/-- The constraints of a declaration are those of the callback, each resolved on its own. -/
theorem forall₂_of_declare
    (h : declare schema name columns scope (fun _ => .ok constraints) = .ok d) :
    List.Forall₂ (fun x y => resolveConstraint schema scope x = .ok y) constraints
      d.constraints := by
  have hd : (resolve schema scope constraints >>= fun r => Except.ok (⟨schema, name, columns, r⟩ :
      TableDef)) = .ok d := h
  cases hr : resolve schema scope constraints with
  | error e => rw [hr] at hd; cases hd
  | ok r =>
    rw [hr] at hd
    cases hd
    rw [resolve] at hr
    cases hm : constraints.mapM (resolveConstraint schema scope) with
    | error e => rw [hm] at hr; cases hr
    | ok r' =>
      rw [hm] at hr
      change (if _ then _ else _) = _ at hr
      split at hr
      · cases hr
      · cases hr
        exact forall₂_of_mapM hm

/-- **What resolving a constraint gives.** -/
def Resolved (scope : ℕ) : Constraint → TableConstraint → Prop
  | .primaryKey key, c => ∃ l, names scope key = .ok l ∧ c = .primaryKey l
  | .unique key, c => ∃ l, names scope key = .ok l ∧ c = .unique l
  | .foreignKey key _ references, c =>
    ∃ l other, names scope key = .ok l ∧ c = .foreignKey l other references
  | .check a, c => ∃ ps, renderBare scope a = .ok ps ∧ c = .check (textOf ps) (mentioned a)
  | .default d a, c => ∃ ps, renderBare scope a = .ok ps ∧ mentioned a = [] ∧ d.1 = scope ∧
    c = .default d.2 (textOf ps) (constantOf a)

theorem resolved_of_ok {x : Constraint} {c : TableConstraint}
    (h : resolveConstraint schema scope x = .ok c) : Resolved scope x c := by
  cases x with
  | primaryKey key =>
    rw [resolveConstraint] at h
    cases hn : names scope key <;> rw [hn] at h <;> cases h
    exact ⟨_, hn, rfl⟩
  | unique key =>
    rw [resolveConstraint] at h
    cases hn : names scope key <;> rw [hn] at h <;> cases h
    exact ⟨_, hn, rfl⟩
  -- the columns of the other table are matched with the key
  | foreignKey key table references =>
    rw [resolveConstraint] at h
    split at h
    case h_1 =>
      split at h
      · cases hn : names scope key <;> rw [hn] at h <;> cases h
        exact ⟨_, _, hn, rfl⟩
      · cases h
    case h_2 => cases h
  | check a =>
    rw [resolveConstraint] at h
    cases hr : renderBare scope a <;> rw [hr] at h <;> cases h
    exact ⟨_, hr, rfl⟩
  -- a DEFAULT is of a column of the table and mentions none
  | default d a =>
    obtain ⟨s, name⟩ := d
    rw [resolveConstraint] at h
    split at h
    · cases h
    case isFalse hm =>
      cases hr : renderBare scope a with
      | error e => rw [hr] at h; cases h
      | ok ps =>
        rw [hr] at h
        change (if s ≠ scope then Schema.foreign else _) = _ at h
        split at h
        · cases h
        case isFalse hs =>
          cases h
          exact ⟨ps, hr, Decidable.not_not.mp hm, Decidable.not_not.mp hs, rfl⟩

/-- Names that resolve are those of columns bound in the scope. -/
theorem mem_of_names {key : List (ℕ × String)} {l : List String} (h : names scope key = .ok l)
    {name : String} (hn : name ∈ l) : (scope, name) ∈ key := by
  obtain ⟨hlen, hget⟩ := List.forall₂_iff_get.mp (forall₂_of_mapM h)
  obtain ⟨⟨i, hi⟩, rfl⟩ := List.mem_iff_get.mp hn
  have hc := hget i (hlen ▸ hi) hi
  split at hc
  · cases hc
  case isFalse hs =>
    have he : key.get ⟨i, hlen ▸ hi⟩ = (scope, l.get ⟨i, hi⟩) :=
      Prod.ext (Decidable.not_not.mp hs) (Except.ok.inj hc)
    exact he ▸ List.get_mem ..

end Declare

/-! ### What a declaration records -/

/-- **The recorded columns are the ones referred to**: those that `mentioned` lists are those of
the rendered text; a DEFAULT that refers to a column is refused; and the columns recorded for a
CHECK are those that its text refers to. -/
structure Mentions (t : Table) (a : Node) : Prop where
  exact : ∀ ps, renderBare t.scope a = .ok ps →
    ∀ name, name ∈ mentioned a ↔ name ∈ ownReferences t ps
  default : ∀ ps, renderBare t.scope a = .ok ps → ownReferences t ps ≠ [] →
    ∀ schema name columns constraints column, Constraint.default column a ∈ constraints →
      ∀ d, declare schema name columns t.scope (fun _ => .ok constraints) ≠ .ok d
  check : ∀ schema name columns constraints d,
    declare schema name columns t.scope (fun _ => .ok constraints) = .ok d →
    ∀ i (h : i < constraints.length), constraints[i] = .check a →
      ∃ ps recorded, renderBare t.scope a = .ok ps ∧
        d.constraints[i]? = some (.check (textOf ps) recorded) ∧
        ∀ column, column ∈ recorded ↔ column ∈ ownReferences t ps

/-- **Mentioned columns.** A declaration records the columns of its clauses exactly when the
expression uses a column or a parameter out of scope, and so does not render, or else each column
of the table that it uses is read outside subqueries and the left operands of IN. -/
theorem mentions_iff (t : Table) (a : Node) :
    Mentions t a ↔ ((∀ p ∈ a.uses [t], p.InScope none) →
      ∀ p ∈ a.uses [t], ∀ name, p.Refers t name → Reads name a) := by
  -- the expression renders exactly when its columns and parameters are in scope
  rw [← exists_renderBare_iff]
  constructor
  · rintro h ⟨ps, hps⟩
    exact (mentioned_iff hps).mp (h.exact ps hps)
  · intro h
    have hexact : ∀ ps, renderBare t.scope a = .ok ps →
        ∀ name, name ∈ mentioned a ↔ name ∈ ownReferences t ps :=
      fun ps hps => (mentioned_iff hps).mpr (h ⟨ps, hps⟩)
    refine ⟨hexact, fun ps hps hne schema name columns constraints column hmem d hd => ?_,
      fun schema name columns constraints d hd i hi hc => ?_⟩
    · -- a DEFAULT that mentions a column is not accepted
      obtain ⟨other, hother⟩ := List.exists_mem_of_ne_nil _ hne
      obtain ⟨hl, hget⟩ := List.forall₂_iff_get.mp (forall₂_of_declare hd)
      obtain ⟨⟨i, hi⟩, hc⟩ := List.mem_iff_get.mp hmem
      have hr := hget i hi (hl ▸ hi)
      rw [hc] at hr
      have hm := (hexact ps hps other).mpr hother
      obtain ⟨-, -, hnil, -⟩ := resolved_of_ok hr
      rw [hnil] at hm
      cases hm
    · obtain ⟨hl, hget⟩ := List.forall₂_iff_get.mp (forall₂_of_declare hd)
      have hr := hget i hi (hl ▸ hi)
      rw [List.get_eq_getElem, hc] at hr
      obtain ⟨ps, hps, hcheck⟩ := resolved_of_ok hr
      exact ⟨ps, mentioned a, hps, by rw [List.getElem?_eq_getElem (hl ▸ hi), ← hcheck]; rfl,
        hexact ps hps⟩

/-- A select from another table. -/
def others : Source :=
  .select "\"main\".\"others\"" 1
    ⟨[.nonNull (.identity .int64)], [.column 1 "n"], false, [], none, [], none, none, [], none, none⟩

/-- `CHECK (c IN (SELECT n FROM others))` of a table bound in scope 0 records no column. -/
theorem not_mentions_in :
    ¬ Mentions ⟨0, "\"main\".\"t\""⟩ (.inSubquery (.column 0 "c") others) := by
  intro h
  have := h.exact _ rfl "c"
  revert this
  decide

end DuckdbMl.Schema
