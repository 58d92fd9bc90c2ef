import DuckdbMl.Sql.Expression

/-!
# Typed SQL: left joins

A row of the joined table may be absent after a left join, its columns then NULL. The ON condition
is evaluated before that, so `~on` gets the columns as the table declares them; the body gets outer
values, which are lifted to nullable expressions. Both carry the scope of the table, and rendering
checks no more than the scope. The callbacks are OCaml functions that may store what they get.

## Main definitions

* `Callback`, `fromTable`, `join`, `crossJoin`, `leftJoin`: selects and joins over callbacks with
  memory
* `outerBinders`, `Outer.lift`: the values that the body of a left join gets
-/

namespace DuckdbMl.Sql

/-! ### Building -/

/-- A callback of the program: it takes fresh scopes, has a memory, and may raise. -/
abbrev Callback (M : Type) := StateT (ℕ × M) (Except Exn)

section Callback

variable {M : Type}

def freshScope : Callback M ℕ := fun (next, memory) => .ok (next, next + 1, memory)

/-- A column of a left-joined table; it is read after lifting only. -/
structure Outer where
  expr : Expr

def outerBinders (columns : List (String × Codec)) (scope : ℕ) : List Outer :=
  columns.map fun c => ⟨⟨.column scope c.1, c.2⟩⟩

/-- `outer` on a non-null column, `Null.outer` on a nullable one. -/
def Outer.lift (o : Outer) : Expr :=
  match o.expr.codec with
  | .nonNull plan => ⟨o.expr.node, .nullable plan⟩
  | .nullable _ => o.expr

def fromTable (t : TableDef) (f : List Expr → Callback M Body) : Callback M Source := do
  let scope ← freshScope
  let body ← f (binders t.columns scope)
  return .select (targetOf t) scope body

/-- Joins prepend themselves to the body their callback builds. -/
def joined (kind : JoinKind) (t : TableDef) (scope : ℕ) (on : Option Node) (b : Body) : Body :=
  { b with joins := ⟨kind, targetOf t, scope, on⟩ :: b.joins }

def join (t : TableDef) (on : List Expr → Callback M Expr) (f : List Expr → Callback M Body) :
    Callback M Body := do
  let scope ← freshScope
  let condition ← on (binders t.columns scope)
  let body ← f (binders t.columns scope)
  return joined .inner t scope (some condition.node) body

def crossJoin (t : TableDef) (f : List Expr → Callback M Body) : Callback M Body := do
  let scope ← freshScope
  let body ← f (binders t.columns scope)
  return joined .cross t scope none body

def leftJoin (t : TableDef) (on : List Expr → Callback M Expr) (f : List Outer → Callback M Body) :
    Callback M Body := do
  let scope ← freshScope
  let condition ← on (binders t.columns scope)
  let body ← f (outerBinders t.columns scope)
  return joined .left t scope (some condition.node) body

end Callback

/-! ### Two tables -/

def users : TableDef := ⟨"main", "users", [("id", of .int64), ("name", of .string)], []⟩

def posts : TableDef := ⟨"main", "posts", [("owner", of .int64), ("title", of .string)], []⟩

end DuckdbMl.Sql
