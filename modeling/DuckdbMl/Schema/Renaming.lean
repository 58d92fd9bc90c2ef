import DuckdbMl.Schema.Declare
import DuckdbMl.Sql.Numbering
import DuckdbMl.Sql.Renaming

/-!
# Tables: scope numbers

A declaration renders its CHECK and DEFAULT clauses in the scope that bound its columns, and
compares scopes for the rest; what it declares does not depend on their numbers.

## Main definitions

* `Constraint.rename`: a constraint with other scope numbers

## Main results

* `declare_rename`: a declaration of renamed constraints is the same
* `scopeFree`: requests and declarations do not depend on scope numbers
* `nested_aliases`: a subquery's alias may come before that of the table around it
-/

namespace DuckdbMl.Schema

open Sql

section Rename

variable (ρ : ℕ → ℕ)

def Column.rename (c : Column) : Column := ⟨ρ c.scope, c.name, c.codec⟩

/-- The constraint with other scope numbers. -/
def Constraint.rename : Constraint → Constraint
  | .primaryKey columns => .primaryKey (columns.map fun c => (ρ c.1, c.2))
  | .unique columns => .unique (columns.map fun c => (ρ c.1, c.2))
  | .foreignKey columns table references =>
    .foreignKey (columns.map fun c => (ρ c.1, c.2)) table references
  | .check a => .check (a.rename ρ)
  | .default c a => .default (ρ c.1, c.2) (a.rename ρ)

mutual

theorem mention_rename {acc : List String} (a : Node) :
    (a.rename ρ).mention acc = a.mention acc := by
  match a with
  | .column _ _ | .param _ _ _ | .literal _ _ | .countStar | .existsIn _ | .inSubquery _ _
  | .scalar _ => rfl
  | .apply _ args => exact nodesMention_rename args
  | .infixOp _ a b =>
    rw [Node.rename, Node.mention, Node.mention, mention_rename a, mention_rename b]
  | .prefixOp _ a => exact mention_rename a
  | .postfixOp a _ => exact mention_rename a
  | .cast a _ => exact mention_rename a
  | .over f ⟨partition, order, _⟩ =>
    rw [Node.rename, Node.mention, Node.mention, mention_rename f, nodesMention_rename partition,
      ordersMention_rename order]

theorem nodesMention_rename {acc : List String} (l : List Node) :
    nodesMention acc (renameNodes ρ l) = nodesMention acc l := by
  match l with
  | [] => rfl
  | a :: rest =>
    rw [renameNodes, nodesMention, nodesMention, mention_rename a, nodesMention_rename rest]

theorem ordersMention_rename {acc : List String} (l : List Order) :
    ordersMention acc (renameOrders ρ l) = ordersMention acc l := by
  match l with
  | [] => rfl
  | ⟨key, _⟩ :: rest =>
    rw [renameOrders, ordersMention, ordersMention, mention_rename key, ordersMention_rename rest]

end

theorem mentioned_rename (a : Node) : mentioned (a.rename ρ) = mentioned a :=
  congrArg List.reverse (mention_rename ρ a)

theorem constantOf_rename (a : Node) : constantOf (a.rename ρ) = constantOf a := by
  rcases a with _ | _ | _ | _ | _ | _ | _ | _ | _ | _ | _ | _ | ⟨f, ⟨partition, order, frame⟩⟩ <;>
    rfl

theorem keyColumns_rename (key : List Column) :
    keyColumns (key.map (.rename ρ)) = (keyColumns key).map fun c => (ρ c.1, c.2) := by
  rw [keyColumns, keyColumns, List.map_map, List.map_map]
  rfl

variable {ρ} (hρ : Function.Injective ρ)

include hρ

theorem renderBare_rename (scope : ℕ) (a : Node) :
    renderBare (ρ scope) (a.rename ρ) = (renderBare scope a).map (renameText ρ) := by
  have hr := render_rename hρ ⟨[(scope, "")], none⟩ a
  simp only [Context.rename, List.map_cons, List.map_nil, Option.map_none] at hr
  rw [renderBare, renderBare, hr, map_run]
  cases render ⟨[(scope, "")], none⟩ a 0 <;> rfl

theorem names_rename (scope : ℕ) (columns : List (ℕ × String)) :
    names (ρ scope) (columns.map fun c => (ρ c.1, c.2)) = names scope columns := by
  induction columns with
  | nil => rfl
  | cons c rest ih =>
    have hc : (ρ c.1 ≠ ρ scope) = (c.1 ≠ scope) := propext hρ.ne_iff
    simp only [names, List.map_cons, List.mapM_cons, hc] at ih ⊢
    rw [ih]

/-- A foreign key to a table whose columns are bound in a renamed scope. -/
theorem foreignKey_rename (key : List Column) (other : TableDef) (scope : ℕ)
    (target : List Column) :
    foreignKey (key.map (.rename ρ)) other (ρ scope) (target.map (.rename ρ)) =
      (foreignKey key other scope target).map (.rename ρ) := by
  have hany : (target.map (Column.rename ρ)).any (fun c => decide (c.scope ≠ ρ scope)) =
      target.any fun c => decide (c.scope ≠ scope) := by
    rw [List.any_map]
    congr 1
    funext c
    exact decide_eq_decide.mpr hρ.ne_iff
  have hnames : (target.map (Column.rename ρ)).map Column.name = target.map Column.name := by
    rw [List.map_map]
    rfl
  have htypes : ∀ l : List Column, keyTypes (l.map (Column.rename ρ)) = keyTypes l := by
    intro l
    rw [keyTypes, List.map_map]
    rfl
  unfold foreignKey
  simp only [hany, hnames, htypes, keyColumns_rename]
  split
  · rfl
  split
  · rfl
  split
  · rfl
  · rfl

theorem resolveConstraint_rename (schema : String) (scope : ℕ) (x : Constraint) :
    resolveConstraint schema (ρ scope) (x.rename ρ) = resolveConstraint schema scope x := by
  cases x with
  | primaryKey columns | unique columns | foreignKey columns =>
    simp only [Constraint.rename, resolveConstraint, names_rename hρ]
  | check a =>
    simp only [Constraint.rename, resolveConstraint, renderBare_rename hρ, mentioned_rename]
    cases renderBare scope a with
    | error e => rfl
    | ok ps =>
      change Except.ok (TableConstraint.check (textOf (renameText ρ ps)) _) = _
      rw [textOf_renameText]
      rfl
  | default c a =>
    have hc : (ρ c.1 ≠ ρ scope) = (c.1 ≠ scope) := propext hρ.ne_iff
    simp only [Constraint.rename, resolveConstraint, renderBare_rename hρ, mentioned_rename,
      constantOf_rename, hc]
    split
    · rfl
    cases renderBare scope a with
    | error e => rfl
    | ok ps =>
      change (if _ then _ else Except.ok (TableConstraint.default _ (textOf (renameText ρ ps)) _)) =
        _
      rw [textOf_renameText]
      rfl

/-- **A declaration does not depend on its scope number.** -/
theorem declare_rename (schema name : String) (columns : List (String × Codec)) (scope : ℕ)
    {k k' : List Column → Except Sql.Exn (List Constraint)}
    (hk : k' (binders columns (ρ scope)) =
      (k (binders columns scope)).map (List.map (.rename ρ))) :
    declare schema name columns (ρ scope) k' = declare schema name columns scope k := by
  have hmap : ∀ l : List Constraint,
      resolve schema (ρ scope) (l.map (.rename ρ)) = resolve schema scope l := by
    intro l
    have hm : (l.map (.rename ρ)).mapM (resolveConstraint schema (ρ scope)) =
        l.mapM (resolveConstraint schema scope) := by
      induction l with
      | nil => rfl
      | cons x rest ih =>
        rw [List.map_cons, List.mapM_cons, List.mapM_cons, resolveConstraint_rename hρ, ih]
    rw [resolve, resolve, hm]
  rw [declare, declare, hk]
  cases k (binders columns scope) with
  | error e => rfl
  | ok l =>
    change (resolve schema (ρ scope) (l.map (.rename ρ)) >>= _) = (resolve schema scope l >>= _)
    rw [hmap]

end Rename

/-! ### Numbering -/

/-- `SELECT (SELECT n FROM others) FROM t`. -/
def nested : Source :=
  .select "\"main\".\"t\"" 2
    ⟨[.nonNull (.identity .int64)], [.scalar others], false, [], none, [], none, none, [], none,
      none⟩

/-- The alias of a subquery in the select list comes before that of the table in FROM. -/
theorem nested_aliases : ∃ g, query [] 0 nested = .ok g ∧
    textOf g.sql = "SELECT (SELECT t1.\"n\" FROM \"main\".\"others\" AS t1) " ++
      "FROM \"main\".\"t\" AS t0" ∧
    (occurrences g.sql).map Occurrence.aliasName ≠
      (List.range (occurrences g.sql).length).map fun k => some (aliasOf k) :=
  ⟨_, rfl, by decide, by decide⟩

/-- **Requests and declarations do not depend on scope numbers**: under an injective renaming of
the scopes a query, a write statement and a declaration give the same request, the same table or
the same failure. The aliases of a text are numbered in the order in which its selects open, the
tables of a select before those of the selects in its clauses. -/
theorem scopeFree (ρ : ℕ → ℕ) (hρ : Function.Injective ρ) (params : List Codec) (scope : ℕ) :
    (∀ source,
      (query params (ρ scope) (source.rename ρ)).map Generated.sent =
          (query params scope source).map Generated.sent ∧
        ∀ g, query params scope source = .ok g →
          ∃ m, (opened g.sql).map Occurrence.aliasName =
            (List.range m).map fun k => some (aliasOf k)) ∧
    (∀ st,
      (command params (ρ scope) (st.rename ρ)).map Command.sent =
          (command params scope st).map Command.sent ∧
        ∀ g, command params scope st = .ok g →
          ∃ m, statementAliases g.sql = (List.range m).map aliasOf) ∧
    (∀ key other target,
      foreignKey (key.map (.rename ρ)) other (ρ scope) (target.map (.rename ρ)) =
        (foreignKey key other scope target).map (.rename ρ)) ∧
    ∀ schema name columns k k',
      k' (binders columns (ρ scope)) = (k (binders columns scope)).map (List.map (.rename ρ)) →
        declare schema name columns (ρ scope) k' = declare schema name columns scope k := by
  refine ⟨fun source => ⟨query_rename hρ params scope source, fun g hg => ?_⟩,
    fun st => ⟨command_rename hρ params scope st, fun g hg => ?_⟩, fun key other target =>
    foreignKey_rename hρ key other scope target, fun schema name columns k k' =>
    declare_rename hρ schema name columns scope⟩
  · rw [query] at hg
    cases hr : renderSource ⟨[], some scope⟩ source 0 with
    | error e =>
      rw [hr] at hg
      cases hg
    | ok r =>
      rw [hr] at hg
      cases hg
      refine ⟨r.2, ?_⟩
      rw [(numbered_of_renderSource (m := r.2) hr).opened, aliasesFrom, Nat.sub_zero,
        List.range_eq_range']
  · rw [command] at hg
    cases hr : renderStatement ⟨[], some scope⟩ st 0 with
    | error e =>
      rw [hr] at hg
      cases hg
    | ok r =>
      rw [hr] at hg
      have hsql : g.sql = r.1 := by
        obtain ⟨target, own, kind, result⟩ := st
        cases result <;> cases hg <;> rfl
      refine ⟨r.2, ?_⟩
      rw [hsql, aliases_of_renderStatement (m := r.2) hr, Nat.sub_zero, List.range_eq_range']

theorem scopeFree_nested :
    (query [] 1 (nested.rename Nat.succ)).map Generated.sent =
      (query [] 0 nested).map Generated.sent :=
  ((scopeFree Nat.succ Nat.succ_injective [] 0).1 nested).1

end DuckdbMl.Schema
