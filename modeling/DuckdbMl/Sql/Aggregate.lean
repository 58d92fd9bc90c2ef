import DuckdbMl.Sql.Write

/-!
# Typed SQL: aggregate selects

An aggregate select has no GROUP BY, so by SQL's rule its rows are one group if its list computes
an aggregate, and a group each otherwise. The select is refused when a traversal of its list
finds no aggregate; the traversal does not look at IN.

## Main definitions

* `aggregates`, `aggregate`: the traversal, and building an aggregate select
* `Computes operands a`: an aggregate call is reached from `a` through `operands`
* `groups`, `Body.rows`: SQL's implicit grouping, and the rows of a select without GROUP BY

## Main results

* `aggregates_iff`: the traversal finds the aggregates outside IN
* `oneRow_iff`: aggregate selects are the lists that compute an aggregate exactly when the
  aggregates of the list are not all on the left of IN
-/

namespace DuckdbMl.Sql

/-! ### Building -/

def aggregateFunctions : List String := ["count", "sum", "min", "max", "avg"]

mutual

/-- Whether an expression computes an aggregate. -/
def aggregates : Node → Bool
  | .countStar => true
  | .apply name args => name ∈ aggregateFunctions || anyAggregates args
  | .infixOp _ a b => aggregates a || aggregates b
  | .prefixOp _ a | .postfixOp a _ | .cast a _ => aggregates a
  -- a window aggregate does not make the select an aggregate
  | .column _ _ | .param _ _ _ | .literal _ _ | .existsIn _ | .inSubquery _ _ | .scalar _
  | .over _ _ => false

def anyAggregates : List Node → Bool
  | [] => false
  | a :: rest => aggregates a || anyAggregates rest

end

/-- A select body without GROUP BY, HAVING, ORDER BY and bounds. -/
def aggregate (where_ : Option Expr) (exprs : List Expr) : Except Exn Body :=
  if ¬ anyAggregates (exprs.map Expr.node) then
    invalidArg "Duckdb.Sql.aggregate: the select list needs an aggregate"
  else
    .ok ⟨exprs.map Expr.codec, exprs.map Expr.node, false, [], where_.map Expr.node, [], none,
      none, [], none, none⟩

/-! ### Aggregates of an expression -/

/-- The operands over the same rows as the expression: those of operators, casts and functions,
and the left of IN. -/
def Node.operands : Node → List Node
  | .apply _ args => args
  | .infixOp _ a b => [a, b]
  | .prefixOp _ a | .postfixOp a _ | .cast a _ | .inSubquery a _ => [a]
  | .column _ _ | .param _ _ _ | .literal _ _ | .countStar | .existsIn _ | .scalar _
  | .over _ _ => []

/-- The operands that are not on the left of IN. -/
def Node.operandsOutsideIn : Node → List Node
  | .inSubquery _ _ => []
  | a => a.operands

def Node.isAggregate : Node → Bool
  | .countStar => true
  | .apply name _ => name ∈ aggregateFunctions
  | _ => false

/-- An aggregate call is reached through operands. -/
inductive Computes (operands : Node → List Node) : Node → Prop
  | call {a : Node} (h : a.isAggregate = true) : Computes operands a
  | operand {a b : Node} (hb : b ∈ operands a) (h : Computes operands b) : Computes operands a

theorem computes_iff {operands : Node → List Node} {a : Node} :
    Computes operands a ↔ a.isAggregate = true ∨ ∃ b ∈ operands a, Computes operands b := by
  constructor
  · rintro (h | ⟨hb, h⟩)
    · exact .inl h
    · exact .inr ⟨_, hb, h⟩
  · rintro (h | ⟨b, hb, h⟩)
    · exact .call h
    · exact .operand hb h

theorem Computes.mono {small large : Node → List Node} (hsub : ∀ a, small a ⊆ large a) {a : Node}
    (h : Computes small a) : Computes large a := by
  induction h with
  | call h => exact .call h
  | operand hb _ ih => exact .operand (hsub _ hb) ih

theorem operandsOutsideIn_subset (a : Node) : a.operandsOutsideIn ⊆ a.operands := by
  cases a <;> simp [Node.operandsOutsideIn]

mutual

/-- The traversal finds the aggregates outside IN. -/
theorem aggregates_iff (a : Node) : aggregates a = true ↔ Computes Node.operandsOutsideIn a := by
  rw [computes_iff]
  match a with
  | .countStar => simp [aggregates, Node.isAggregate]
  | .apply name args =>
    simp [aggregates, Node.isAggregate, Node.operandsOutsideIn, Node.operands,
      anyAggregates_iff args]
  | .infixOp _ a b =>
    simp [aggregates, Node.isAggregate, Node.operandsOutsideIn, Node.operands, aggregates_iff a,
      aggregates_iff b]
  | .prefixOp _ a =>
    simp [aggregates, Node.isAggregate, Node.operandsOutsideIn, Node.operands, aggregates_iff a]
  | .postfixOp a _ =>
    simp [aggregates, Node.isAggregate, Node.operandsOutsideIn, Node.operands, aggregates_iff a]
  | .cast a _ =>
    simp [aggregates, Node.isAggregate, Node.operandsOutsideIn, Node.operands, aggregates_iff a]
  | .column _ _ | .param _ _ _ | .literal _ _ | .existsIn _ | .inSubquery _ _ | .scalar _
  | .over _ _ =>
    simp [aggregates, Node.isAggregate, Node.operandsOutsideIn, Node.operands]

theorem anyAggregates_iff (l : List Node) :
    anyAggregates l = true ↔ ∃ a ∈ l, Computes Node.operandsOutsideIn a := by
  match l with
  | [] => simp [anyAggregates]
  | a :: rest => simp [anyAggregates, aggregates_iff a, anyAggregates_iff rest]

end

/-! ### The rows of a select without GROUP BY -/

section Grouping

variable {ρ V : Type}

open Classical in
/-- **SQL's implicit grouping**: with an aggregate in the list all rows are one group, otherwise
each is its own. -/
noncomputable def groups (list : List Node) (rows : List ρ) : List (List ρ) :=
  if ∃ a ∈ list, Computes Node.operands a then [rows] else rows.map fun r => [r]

/-- The rows of a select without GROUP BY: those of its tables that WHERE keeps, grouped, with
the list evaluated in each group. -/
noncomputable def Body.rows (b : Body) (keep : Node → ρ → Bool) (value : Node → List ρ → V)
    (rows : List ρ) : List (List V) :=
  (groups b.list (rows.filter fun r => b.where_.all (keep · r))).map fun g =>
    b.list.map (value · g)

theorem Body.length_rows {b : Body} (h : ∃ a ∈ b.list, Computes Node.operands a)
    (keep : Node → ρ → Bool) (value : Node → List ρ → V) (rows : List ρ) :
    (b.rows keep value rows).length = 1 := by
  rw [Body.rows, groups, if_pos h, List.map_singleton, List.length_singleton]

end Grouping

/-- **Aggregate selects return one row**: a list is accepted exactly when it computes an
aggregate, and an accepted select has one row whatever its tables hold and however its
expressions evaluate. -/
structure OneRow (where_ : Option Expr) (exprs : List Expr) : Prop where
  accepted : (∃ b, aggregate where_ exprs = .ok b) ↔ ∃ e ∈ exprs, Computes Node.operands e.node
  one : ∀ b, aggregate where_ exprs = .ok b → ∀ {ρ V : Type} (keep : Node → ρ → Bool)
    (value : Node → List ρ → V) (rows : List ρ), (b.rows keep value rows).length = 1

theorem aggregate_ok_iff {where_ : Option Expr} {exprs : List Expr} :
    (∃ b, aggregate where_ exprs = .ok b) ↔
      ∃ e ∈ exprs, Computes Node.operandsOutsideIn e.node := by
  have hany := anyAggregates_iff (exprs.map Expr.node)
  simp only [List.mem_map, exists_exists_and_eq_and] at hany
  rw [← hany, aggregate]
  split <;> simp_all [invalidArg]

theorem list_of_aggregate {where_ : Option Expr} {exprs : List Expr} {b : Body}
    (h : aggregate where_ exprs = .ok b) : b.list = exprs.map Expr.node := by
  rw [aggregate] at h
  split at h <;> cases h
  rfl

/-- **Aggregate selects.** They are the lists that compute an aggregate exactly when a list that
does so also computes one outside the left operands of IN. -/
theorem oneRow_iff (where_ : Option Expr) (exprs : List Expr) : OneRow where_ exprs ↔
    ((∃ e ∈ exprs, Computes Node.operands e.node) →
      ∃ e ∈ exprs, Computes Node.operandsOutsideIn e.node) := by
  have hmono : (∃ e ∈ exprs, Computes Node.operandsOutsideIn e.node) →
      ∃ e ∈ exprs, Computes Node.operands e.node :=
    fun ⟨e, he, h⟩ => ⟨e, he, h.mono operandsOutsideIn_subset⟩
  constructor
  · intro h hc
    exact aggregate_ok_iff.mp (h.accepted.mpr hc)
  · intro h
    refine ⟨aggregate_ok_iff.trans ⟨hmono, h⟩, fun b hb ρ V keep value rows => ?_⟩
    refine Body.length_rows ?_ keep value rows
    obtain ⟨e, he, hc⟩ := hmono (aggregate_ok_iff.mp ⟨b, hb⟩)
    exact ⟨e.node, by rw [list_of_aggregate hb]; exact List.mem_map_of_mem he, hc⟩

/-- `count(*) IN (SELECT n FROM numbers)`. -/
def countIn : Expr :=
  ⟨.inSubquery .countStar (.select "\"main\".\"numbers\"" 1
    ⟨[.nonNull (.identity .int64)], [.column 1 "n"], false, [], none, [], none, none, [], none,
      none⟩), .nullable (.identity .bool)⟩

/-- A list whose only aggregate is on the left of IN is refused. -/
theorem not_oneRow_countIn : ¬ OneRow none [countIn] := by
  intro h
  obtain ⟨b, hb⟩ := h.accepted.mpr ⟨countIn, List.mem_singleton_self _,
    .operand (List.mem_singleton_self _) (.call rfl)⟩
  cases hb

end DuckdbMl.Sql
