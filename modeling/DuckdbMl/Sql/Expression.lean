import DuckdbMl.Sql.Aggregate
import DuckdbMl.Sql.Literal

/-!
# Typed SQL: the expression constructors

Every constructor makes a node and states its codec. The kinds of expressions (per row, per group,
windowed) and the types of their values are checked by the compiler and leave no trace here.

## Main definitions

* `compatible`, `checked`: operands cross the native boundary the same way
* the constructors of expressions: literals, comparisons, arithmetic, aggregates, windows and
  subqueries
* the constructors of selects and set operations
-/

namespace DuckdbMl.Sql

/-! ### Parameters and literals -/

structure Param where
  scope : ℕ
  index : ℕ
  codec : Codec

/-- The parameters of a query, numbered from `index`. -/
def bound (params : List Codec) (scope index : ℕ) : List Param :=
  match params with
  | [] => []
  | codec :: rest => ⟨scope, index, codec⟩ :: bound rest scope (index + 1)

/-- The SQL type a codec crosses the native boundary as. -/
def Codec.sqlType (c : Codec) : String := c.plan.scalar.name

def of (scalar : Scalar) : Codec := .nonNull (.identity scalar)

def param (p : Param) : Expr := ⟨.param p.scope p.index p.codec.sqlType, p.codec⟩

def typed (codec : Codec) (scalar : Scalar) (text : String) : Expr := ⟨typedNode scalar text, codec⟩

def bool (b : Bool) : Expr := ⟨boolNode b, of .bool⟩
def int8 (n : Int8) : Expr := typed (of .int8) .int8 (toString n.toInt)
def int16 (n : Int16) : Expr := typed (of .int16) .int16 (toString n.toInt)
def int32 (n : Int32) : Expr := typed (of .int32) .int32 (toString n.toInt)
def int64 (n : Int64) : Expr := typed (of .int64) .int64 (toString n.toInt)
def float32 (f : Floating) : Expr := typed (of .float32) .float32 (floatText f)
def float64 (f : Floating) : Expr := typed (of .float64) .float64 (floatText f)
def string (s : String) : Expr := ⟨stringNode s, of .string⟩

/-- A literal of any codec, whose plan encodes the value or fails. -/
def value (plan : Plan) (encoded : Except String Value) : Except Exn Expr :=
  match encoded with
  | .ok b => .ok ⟨scalarNode b, .nonNull plan⟩
  | .error e => invalidArg ("Duckdb.Sql.value: the codec rejected the value: " ++ e)

/-! ### Operands -/

/-- The same base scalar without a conversion, or the same custom conversion. -/
def Plan.same : Plan → Plan → Bool
  | .identity s, .identity t => s.name == t.name
  | .plan p _, .plan q _ => p == q
  | _, _ => false

def compatible : Codec → Codec → Bool
  | .nonNull p, .nonNull q => p.same q
  | .nullable p, .nullable q => p.same q
  | _, _ => false

def mismatched {α : Type} : Except Exn α :=
  invalidArg "Duckdb.Sql: operands of different codecs (base types, or a custom codec and a plain value)"

def checked (a b : Expr) : Except Exn Unit :=
  if ¬ compatible a.codec b.codec then mismatched else .ok ()

def nullable (e : Expr) : Expr := ⟨e.node, .nullable e.codec.plan⟩

def coalesce (e default : Expr) : Except Exn Expr :=
  if ¬ compatible e.codec (nullable default).codec then mismatched
  else .ok ⟨.apply "coalesce" [e.node, default.node], default.codec⟩

def isNull (e : Expr) : Expr := ⟨.postfixOp e.node "IS NULL", of .bool⟩
def isTrue (e : Expr) : Expr := ⟨.postfixOp e.node "IS TRUE", of .bool⟩

/-! ### Comparisons and logic -/

/-- An operator on two operands that agree, with the codec of its result. -/
def compareAs (codec : Codec) (op : String) (a b : Expr) : Except Exn Expr := do
  checked a b
  return ⟨.infixOp op a.node b.node, codec⟩

def compare (op : String) (a b : Expr) : Except Exn Expr := compareAs (of .bool) op a b
def nullCompare (op : String) (a b : Expr) : Except Exn Expr :=
  compareAs (.nullable (.identity .bool)) op a b

/-- The operators on non-null operands, and those of `Null`. -/
def comparisons : List String := ["=", "<>", "<", "<=", ">", ">=", "AND", "OR"]

def like (a b : Expr) : Except Exn Expr := compare "LIKE" a b

def not (e : Expr) : Expr := ⟨.prefixOp "NOT" e.node, e.codec⟩

/-! ### Arithmetic and aggregates -/

/-- Arithmetic keeps the operand type: results are cast back to it. -/
def arith (op : String) (a b : Expr) : Except Exn Expr := do
  checked a b
  return ⟨.cast (.infixOp op a.node b.node) a.codec.sqlType, a.codec⟩

/-- DuckDB's integer division yields NULL for a zero divisor. -/
def nullDivision (op : String) (a b : Expr) : Except Exn Expr := do
  checked a b
  return ⟨.cast (.infixOp op a.node b.node) a.codec.sqlType, .nullable a.codec.plan⟩

/-- The operators of `Integral`, `Fractional` and their `Null`. -/
def arithmetic : List String := ["+", "-", "*", "/", "//"]

def countStar : Expr := ⟨.countStar, of .int64⟩
def count (e : Expr) : Expr := ⟨.apply "count" [e.node], of .int64⟩
def extreme (name : String) (e : Expr) : Expr := ⟨.apply name [e.node], .nullable e.codec.plan⟩
def nullExtreme (name : String) (e : Expr) : Expr := ⟨.apply name [e.node], e.codec⟩
def sum (e : Expr) : Expr := ⟨.cast (.apply "sum" [e.node]) e.codec.sqlType, .nullable e.codec.plan⟩
def nullSum (e : Expr) : Expr := ⟨.cast (.apply "sum" [e.node]) e.codec.sqlType, e.codec⟩
def avg (e : Expr) : Expr :=
  ⟨.cast (.apply "avg" [e.node]) "DOUBLE", .nullable (.identity .float64)⟩

/-! ### Windows -/

inductive FrameBound
  | unboundedPreceding
  | preceding (n : ℤ)
  | currentRow
  | following (n : ℤ)
  | unboundedFollowing

def renderBound : FrameBound → Except Exn String
  | .unboundedPreceding => .ok "UNBOUNDED PRECEDING"
  | .preceding n =>
    if n < 0 then invalidArg "Duckdb.Sql: a negative frame offset"
    else .ok (toString n ++ " PRECEDING")
  | .currentRow => .ok "CURRENT ROW"
  | .following n =>
    if n < 0 then invalidArg "Duckdb.Sql: a negative frame offset"
    else .ok (toString n ++ " FOLLOWING")
  | .unboundedFollowing => .ok "UNBOUNDED FOLLOWING"

def frame (unit : String) (start stop : FrameBound) : Except Exn String := do
  -- `^` evaluates its right operand first
  let stop ← renderBound stop
  let start ← renderBound start
  return unit ++ start ++ " AND " ++ stop

def rows (start stop : FrameBound) : Except Exn String := frame "ROWS BETWEEN " start stop
def range (start stop : FrameBound) : Except Exn String := frame "RANGE BETWEEN " start stop

def asc (e : Expr) : Order := ⟨e.node, false⟩
def desc (e : Expr) : Order := ⟨e.node, true⟩

def window (partitionBy : List Expr) (orderBy : List Order) (frame : Option String) : WindowSpec :=
  ⟨partitionBy.map Expr.node, orderBy, frame⟩

/-- A function over a window. -/
def overWindow (name : String) (args : List Node) (w : WindowSpec) (codec : Codec) : Expr :=
  ⟨.over (.apply name args) w, codec⟩

def sumOver (e : Expr) (w : WindowSpec) : Expr :=
  ⟨.cast (.over (.apply "sum" [e.node]) w) e.codec.sqlType, .nullable e.codec.plan⟩
def nullSumOver (e : Expr) (w : WindowSpec) : Expr :=
  ⟨.cast (.over (.apply "sum" [e.node]) w) e.codec.sqlType, e.codec⟩
def avgOver (e : Expr) (w : WindowSpec) : Expr :=
  ⟨.cast (.over (.apply "avg" [e.node]) w) "DOUBLE", .nullable (.identity .float64)⟩

/-- Ranking functions without an argument, and the type of their results. -/
def rankings : List (String × Scalar) :=
  [("row_number", .int64), ("rank", .int64), ("dense_rank", .int64), ("percent_rank", .float64),
    ("cume_dist", .float64)]

def ranking (name : String) (scalar : Scalar) (w : WindowSpec) : Expr :=
  overWindow name [] w (of scalar)

def positive (name : String) (n : ℤ) : Except Exn Unit :=
  if n < 1 then invalidArg ("Duckdb.Sql." ++ name ++ ": must be positive") else .ok ()

/-- An integer argument of a window function, rendered as such. -/
def integerNode (n : ℤ) : Node := .literal (toString n) none

def ntile (n : ℤ) (w : WindowSpec) : Except Exn Expr := do
  positive "ntile" n
  return overWindow "ntile" [integerNode n] w (of .int64)

def countLiteral (name : String) (n : ℤ) : Except Exn Node :=
  if n < 0 then invalidArg ("Duckdb.Sql." ++ name ++ ": a negative offset")
  else .ok (integerNode n)

def shifted (name : String) (offset : ℤ) (e : Expr) (w : WindowSpec) (codec : Codec) :
    Except Exn Expr := do
  let n ← countLiteral name offset
  return overWindow name [e.node, n] w codec

def lag (offset : ℤ) (e : Expr) (w : WindowSpec) : Except Exn Expr :=
  shifted "lag" offset e w (.nullable e.codec.plan)
def lead (offset : ℤ) (e : Expr) (w : WindowSpec) : Except Exn Expr :=
  shifted "lead" offset e w (.nullable e.codec.plan)
def nullLag (offset : ℤ) (e : Expr) (w : WindowSpec) : Except Exn Expr :=
  shifted "lag" offset e w e.codec
def nullLead (offset : ℤ) (e : Expr) (w : WindowSpec) : Except Exn Expr :=
  shifted "lead" offset e w e.codec

def shiftedOr (name : String) (offset : ℤ) (default e : Expr) (w : WindowSpec) :
    Except Exn Expr := do
  checked e default
  let n ← countLiteral name offset
  return overWindow name [e.node, n, default.node] w e.codec

def lagOr (offset : ℤ) (default e : Expr) (w : WindowSpec) : Except Exn Expr :=
  shiftedOr "lag" offset default e w
def leadOr (offset : ℤ) (default e : Expr) (w : WindowSpec) : Except Exn Expr :=
  shiftedOr "lead" offset default e w

/-- A frame may be empty. -/
def firstValue (e : Expr) (w : WindowSpec) : Expr :=
  overWindow "first_value" [e.node] w (.nullable e.codec.plan)
def lastValue (e : Expr) (w : WindowSpec) : Expr :=
  overWindow "last_value" [e.node] w (.nullable e.codec.plan)
def nullFirstValue (e : Expr) (w : WindowSpec) : Expr :=
  overWindow "first_value" [e.node] w e.codec
def nullLastValue (e : Expr) (w : WindowSpec) : Expr :=
  overWindow "last_value" [e.node] w e.codec

def nthValueAs (codec : Codec) (n : ℤ) (e : Expr) (w : WindowSpec) : Except Exn Expr := do
  positive "nth_value" n
  let position ← countLiteral "nth_value" n
  return overWindow "nth_value" [e.node, position] w codec

def nthValue (n : ℤ) (e : Expr) (w : WindowSpec) : Except Exn Expr :=
  nthValueAs (.nullable e.codec.plan) n e w
def nullNthValue (n : ℤ) (e : Expr) (w : WindowSpec) : Except Exn Expr := nthValueAs e.codec n e w

/-- Aggregates over windows. -/
def countStarOver (w : WindowSpec) : Expr := ⟨.over .countStar w, of .int64⟩
def countOver (e : Expr) (w : WindowSpec) : Expr :=
  overWindow "count" [e.node] w (of .int64)
def extremeOver (name : String) (e : Expr) (w : WindowSpec) : Expr :=
  overWindow name [e.node] w (.nullable e.codec.plan)
def nullExtremeOver (name : String) (e : Expr) (w : WindowSpec) : Expr :=
  overWindow name [e.node] w e.codec

/-! ### Selects -/

/-- The optional clauses of a select. -/
structure Clauses where
  distinct : Bool := false
  where_ : Option Expr := none
  having : Option Expr := none
  orderBy : List Order := []
  limit : Option ℤ := none
  offset : Option ℤ := none

def nonNegative (name : String) : Option ℤ → Except Exn Unit
  | some n => if n < 0 then invalidArg ("Duckdb.Sql.select: a negative " ++ name) else .ok ()
  | none => .ok ()

def select (c : Clauses) (exprs : List Expr) : Except Exn Body := do
  nonNegative "limit" c.limit
  nonNegative "offset" c.offset
  return ⟨exprs.map Expr.codec, exprs.map Expr.node, c.distinct, [], c.where_.map Expr.node, [],
    c.having.map Expr.node, none, c.orderBy, c.limit, c.offset⟩

def selectOver (c : Clauses) (qualify : Option Expr) (exprs : List Expr) : Except Exn Body := do
  let b ← select { c with orderBy := [] } exprs
  return { b with qualify := qualify.map Expr.node, orderBy := c.orderBy }

/-- The callback sees the keys as grouped expressions of the same nodes and codecs. -/
def groupBy (keys : List Expr) (f : List Expr → Except Exn Body) : Except Exn Body := do
  let b ← f keys
  return { b with groupBy := keys.map Expr.node }

/-! ### Subqueries and set operations -/

def exists_ (s : Source) : Expr := ⟨.existsIn s, of .bool⟩

def in_ (x : Expr) (s : Source) : Except Exn Expr :=
  match s.leftmost.columns with
  | column :: _ =>
    if ¬ compatible x.codec column then
      invalidArg "Duckdb.Sql.in_: the subquery's column has another codec"
    else .ok ⟨.inSubquery x.node s, .nullable (.identity .bool)⟩
  | [] => .ok ⟨.inSubquery x.node s, .nullable (.identity .bool)⟩

/-- No row is NULL, so a non-null column becomes nullable. -/
def scalar (s : Source) : Except Exn Expr :=
  match s.leftmost.columns with
  | .nullable _ :: _ => invalidArg "Duckdb.Sql.scalar: a nullable column (use Null.scalar)"
  | .nonNull plan :: _ => .ok ⟨.scalar s, .nullable plan⟩
  | [] => mismatched

def nullScalar (s : Source) : Except Exn Expr :=
  match s.leftmost.columns with
  | .nonNull _ :: _ => invalidArg "Duckdb.Sql.Null.scalar: a non-null column (use scalar)"
  | codec :: _ => .ok ⟨.scalar s, codec⟩
  | [] => mismatched

def compatibleFields (a b : List Codec) : Bool := a.length == b.length && (a.zip b).all fun x =>
  compatible x.1 x.2

/-- `UNION`, `UNION ALL`, `INTERSECT` or `EXCEPT`. -/
def setOperation (op : String) (left right : Source) : Except Exn Source :=
  if ¬ compatibleFields left.leftmost.columns right.leftmost.columns then
    invalidArg "Duckdb.Sql: set operation sides of different codecs"
  else .ok (.set op left right)

def setOperations : List String := ["UNION", "UNION ALL", "INTERSECT", "EXCEPT"]

end DuckdbMl.Sql
