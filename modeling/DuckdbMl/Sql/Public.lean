import DuckdbMl.Sql.LeftJoin

/-!
# Typed SQL: what the constructors build

The types of expressions, selects and sources are abstract: a program makes them with the
constructors only, whose types ask for operands that are nullable or that are not. What it starts
from is what its callbacks got.

## Main definitions

* `Env`: the columns that the callbacks got, and the tables that were bound for them
* `Expr.Public`, `WindowSpec.Public`, `Order.Public`: the expressions, windows and orders that the
  constructors build
* `Body.Public`, `Source.Public`: the selects and sources that they build
-/

namespace DuckdbMl.Sql

def Codec.NonNull (c : Codec) : Prop := ∃ plan, c = .nonNull plan

def Codec.Nullable (c : Codec) : Prop := ∃ plan, c = .nullable plan

/-- What a program starts from: the columns its callbacks got, the scopes of its FROM clauses, and
those of its joins, each with the condition that `~on` answered. -/
structure Env where
  column : Expr → Prop
  table : TableDef → ℕ → Prop
  join : JoinKind → TableDef → ℕ → Option Node → Prop

variable (env : Env)

mutual

/-- An expression that the constructors build. -/
inductive Expr.Public : Expr → Prop
  | column {e : Expr} (h : env.column e) : Expr.Public e
  | param (p : Param) : Expr.Public (param p)
  | bool (b : Bool) : Expr.Public (bool b)
  | int8 (n : Int8) : Expr.Public (int8 n)
  | int16 (n : Int16) : Expr.Public (int16 n)
  | int32 (n : Int32) : Expr.Public (int32 n)
  | int64 (n : Int64) : Expr.Public (int64 n)
  | float32 (f : Floating) : Expr.Public (float32 f)
  | float64 (f : Floating) : Expr.Public (float64 f)
  | string (s : String) : Expr.Public (string s)
  | value {plan : Plan} {encoded : Except String Value} {e : Expr}
      (h : value plan encoded = .ok e) : Expr.Public e
  | nullable {e : Expr} (he : Expr.Public e) : Expr.Public (nullable e)
  | coalesce {a default e : Expr} (ha : Expr.Public a) (hd : Expr.Public default)
      (h : coalesce a default = .ok e) : Expr.Public e
  | isNull {e : Expr} (he : Expr.Public e) : Expr.Public (isNull e)
  | isTrue {e : Expr} (he : Expr.Public e) : Expr.Public (isTrue e)
  | compare {op : String} {a b e : Expr} (hop : op ∈ comparisons) (hn : a.codec.NonNull)
      (ha : Expr.Public a) (hb : Expr.Public b) (h : compare op a b = .ok e) : Expr.Public e
  | nullCompare {op : String} {a b e : Expr} (hop : op ∈ comparisons) (hn : a.codec.Nullable)
      (ha : Expr.Public a) (hb : Expr.Public b) (h : nullCompare op a b = .ok e) : Expr.Public e
  | like {a b e : Expr} (hn : a.codec.NonNull) (ha : Expr.Public a) (hb : Expr.Public b)
      (h : like a b = .ok e) : Expr.Public e
  | not {e : Expr} (he : Expr.Public e) : Expr.Public (not e)
  | arith {op : String} {a b e : Expr} (hop : op ∈ arithmetic)
      (hn : op = "//" → a.codec.Nullable) (ha : Expr.Public a) (hb : Expr.Public b)
      (h : arith op a b = .ok e) : Expr.Public e
  | nullDivision {a b e : Expr} (hn : a.codec.NonNull) (ha : Expr.Public a) (hb : Expr.Public b)
      (h : nullDivision "//" a b = .ok e) : Expr.Public e
  | countStar : Expr.Public countStar
  | count {e : Expr} (he : Expr.Public e) : Expr.Public (count e)
  | extreme {name : String} {e : Expr} (hn : name ∈ ["min", "max"]) (he : Expr.Public e) :
      Expr.Public (extreme name e)
  | nullExtreme {name : String} {e : Expr} (hn : name ∈ ["min", "max"]) (hc : e.codec.Nullable)
      (he : Expr.Public e) : Expr.Public (nullExtreme name e)
  | sum {e : Expr} (he : Expr.Public e) : Expr.Public (sum e)
  | nullSum {e : Expr} (hc : e.codec.Nullable) (he : Expr.Public e) : Expr.Public (nullSum e)
  | avg {e : Expr} (he : Expr.Public e) : Expr.Public (avg e)
  | sumOver {e : Expr} {w : WindowSpec} (he : Expr.Public e) (hw : WindowSpec.Public w) :
      Expr.Public (sumOver e w)
  | nullSumOver {e : Expr} {w : WindowSpec} (hc : e.codec.Nullable) (he : Expr.Public e)
      (hw : WindowSpec.Public w) : Expr.Public (nullSumOver e w)
  | avgOver {e : Expr} {w : WindowSpec} (he : Expr.Public e) (hw : WindowSpec.Public w) :
      Expr.Public (avgOver e w)
  | ranking {name : String} {scalar : Scalar} {w : WindowSpec} (hn : (name, scalar) ∈ rankings)
      (hw : WindowSpec.Public w) : Expr.Public (ranking name scalar w)
  | ntile {n : ℤ} {w : WindowSpec} {e : Expr} (hw : WindowSpec.Public w)
      (h : ntile n w = .ok e) : Expr.Public e
  | shifted {name : String} {offset : ℤ} {a e : Expr} {w : WindowSpec} {codec : Codec}
      (hn : name ∈ ["lag", "lead"]) (hc : codec = .nullable a.codec.plan) (ha : Expr.Public a)
      (hw : WindowSpec.Public w) (h : shifted name offset a w codec = .ok e) : Expr.Public e
  | shiftedOr {name : String} {offset : ℤ} {default a e : Expr} {w : WindowSpec}
      (hn : name ∈ ["lag", "lead"]) (hd : Expr.Public default) (ha : Expr.Public a)
      (hw : WindowSpec.Public w) (h : shiftedOr name offset default a w = .ok e) : Expr.Public e
  | firstValue {e : Expr} {w : WindowSpec} (he : Expr.Public e) (hw : WindowSpec.Public w) :
      Expr.Public (firstValue e w)
  | lastValue {e : Expr} {w : WindowSpec} (he : Expr.Public e) (hw : WindowSpec.Public w) :
      Expr.Public (lastValue e w)
  | nthValue {n : ℤ} {a e : Expr} {w : WindowSpec} (ha : Expr.Public a)
      (hw : WindowSpec.Public w) (h : nthValue n a w = .ok e) : Expr.Public e
  | countStarOver {w : WindowSpec} (hw : WindowSpec.Public w) : Expr.Public (countStarOver w)
  | countOver {e : Expr} {w : WindowSpec} (he : Expr.Public e) (hw : WindowSpec.Public w) :
      Expr.Public (countOver e w)
  | extremeOver {name : String} {e : Expr} {w : WindowSpec} (hn : name ∈ ["min", "max"])
      (he : Expr.Public e) (hw : WindowSpec.Public w) : Expr.Public (extremeOver name e w)
  | exists_ {s : Source} (hs : Source.Public s) : Expr.Public (exists_ s)
  | in_ {x e : Expr} {s : Source} (hx : Expr.Public x) (hs : Source.Public s)
      (hc : s.leftmost.columns.length = 1) (h : in_ x s = .ok e) : Expr.Public e
  | scalar {s : Source} {e : Expr} (hs : Source.Public s) (hc : s.leftmost.columns.length = 1)
      (h : scalar s = .ok e) : Expr.Public e
  | nullScalar {s : Source} {e : Expr} (hs : Source.Public s)
      (hc : s.leftmost.columns.length = 1) (h : nullScalar s = .ok e) : Expr.Public e

inductive Order.Public : Order → Prop
  | asc {e : Expr} (he : Expr.Public e) : Order.Public (asc e)
  | desc {e : Expr} (he : Expr.Public e) : Order.Public (desc e)

inductive WindowSpec.Public : WindowSpec → Prop
  | window {partitionBy : List Expr} {orderBy : List Order} {frame : Option String}
      (hp : ∀ e ∈ partitionBy, Expr.Public e) (ho : ∀ o ∈ orderBy, Order.Public o)
      (hf : ∀ f ∈ frame, ∃ start stop, rows start stop = .ok f ∨ range start stop = .ok f) :
      WindowSpec.Public (window partitionBy orderBy frame)

/-- A select that the constructors build. -/
inductive Body.Public : Body → Prop
  | select {c : Clauses} {exprs : List Expr} {b : Body} (he : ∀ e ∈ exprs, Expr.Public e)
      (hw : ∀ e ∈ c.where_, Expr.Public e) (hh : ∀ e ∈ c.having, Expr.Public e)
      (ho : ∀ o ∈ c.orderBy, Order.Public o) (h : select c exprs = .ok b) : Body.Public b
  | selectOver {c : Clauses} {qualify : Option Expr} {exprs : List Expr} {b : Body}
      (he : ∀ e ∈ exprs, Expr.Public e) (hw : ∀ e ∈ c.where_, Expr.Public e)
      (hh : ∀ e ∈ c.having, Expr.Public e) (hq : ∀ e ∈ qualify, Expr.Public e)
      (ho : ∀ o ∈ c.orderBy, Order.Public o) (h : selectOver c qualify exprs = .ok b) :
      Body.Public b
  | aggregate {w : Option Expr} {exprs : List Expr} {b : Body} (he : ∀ e ∈ exprs, Expr.Public e)
      (hw : ∀ e ∈ w, Expr.Public e) (h : aggregate w exprs = .ok b) : Body.Public b
  | groupBy {keys : List Expr} {f : List Expr → Except Exn Body} {b b' : Body}
      (hk : ∀ e ∈ keys, Expr.Public e) (hf : f keys = .ok b') (hb : Body.Public b')
      (h : groupBy keys f = .ok b) : Body.Public b
  | join {kind : JoinKind} {t : TableDef} {scope : ℕ} {on : Expr} {b : Body}
      (hk : kind ≠ .cross) (ht : env.join kind t scope (some on.node)) (ho : Expr.Public on)
      (hb : Body.Public b) : Body.Public (joined kind t scope (some on.node) b)
  | crossJoin {t : TableDef} {scope : ℕ} {b : Body} (ht : env.join .cross t scope none)
      (hb : Body.Public b) : Body.Public (joined .cross t scope none b)

/-- A source that the constructors build. -/
inductive Source.Public : Source → Prop
  | fromTable {t : TableDef} {scope : ℕ} {b : Body} (ht : env.table t scope)
      (hb : Body.Public b) : Source.Public (.select (targetOf t) scope b)
  | setOperation {op : String} {left right s : Source} (hop : op ∈ setOperations)
      (hl : Source.Public left) (hr : Source.Public right)
      (h : setOperation op left right = .ok s) : Source.Public s

end

end DuckdbMl.Sql
