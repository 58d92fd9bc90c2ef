import DuckdbMl.Sql.Syntax

/-!
# Typed SQL: rendering

A counter of aliases runs through the renderer from left to right; the context holds the alias
of each table in scope. An expression that mentions a table or a query it is not part of is
refused.

## Main definitions

* `render`, `renderSource`: the text of an expression and of a source
* `query`: the request of a query
-/

namespace DuckdbMl.Sql

/-- What building and rendering raise. -/
inductive Exn
  | invalidArgument (message : String)
  deriving DecidableEq, Repr

/-- A computation with the counter of aliases. -/
abbrev Render := StateT ℕ (Except Exn)

def foreign {α : Type} : Render α := fun _ =>
  .error (.invalidArgument "Duckdb.Sql: an expression from another query")

/-- The alias of each table in scope, and the scope of the query's parameters. A table without
an alias has the alias `""`; a table's own clauses have no parameters. -/
structure Context where
  aliases : List (ℕ × String)
  params : Option ℕ

def aliasOf (n : ℕ) : String := "t" ++ toString n

/-- The next free alias. -/
def freshAlias : Render String := fun n => .ok (aliasOf n, n + 1)

def freshAliases : List Join → Render (List String)
  | [] => pure []
  | _ :: rest => do
    let a ← freshAlias
    return a :: (← freshAliases rest)

/-- Texts with a separator between them. -/
def concat (sep : String) : List (List Fragment) → List Fragment
  | [] => []
  | [a] => a
  | a :: rest => a ++ .raw sep :: concat sep rest

/-- A list under its keyword, left out when it is empty. -/
def listed (keyword : String) : List (List Fragment) → Option (List Fragment)
  | [] => none
  | keys => some (.raw keyword :: concat ", " keys)

def direction (descending : Bool) : String := if descending then " DESC" else " ASC"

def number (keyword : String) : Option ℤ → List Fragment
  | none => []
  | some n => [.raw (" " ++ keyword ++ " " ++ toString n)]

def JoinKind.keyword : JoinKind → String
  | .inner => "INNER JOIN"
  | .left => "LEFT JOIN"
  | .cross => "CROSS JOIN"

mutual

/-- The text of an expression. -/
def render (c : Context) : Node → Render (List Fragment)
  | .column scope name =>
    match c.aliases.lookup scope with
    | none => foreign
    | some a => pure [.column (if a = "" then none else some a) name scope]
  | .param scope index sqlType =>
    if c.params ≠ some scope then foreign
    else pure [.raw ("CAST($" ++ toString index ++ " AS " ++ sqlType ++ ")")]
  | .literal sql _ => pure [.raw sql]
  | .apply name args => do
    let args ← renderAll c args
    return .raw (name ++ "(") :: concat ", " args ++ [.raw ")"]
  | .infixOp op a b => do
    let a ← render c a
    let b ← render c b
    return .raw "(" :: a ++ .raw (" " ++ op ++ " ") :: b ++ [.raw ")"]
  | .prefixOp op a => do
    let a ← render c a
    return .raw ("(" ++ op ++ " ") :: a ++ [.raw ")"]
  | .postfixOp a op => do
    let a ← render c a
    return .raw "(" :: a ++ [.raw (" " ++ op ++ ")")]
  | .cast a sqlType => do
    let a ← render c a
    return .raw "CAST(" :: a ++ [.raw (" AS " ++ sqlType ++ ")")]
  | .countStar => pure [.raw "count(*)"]
  | .existsIn s => do
    let s ← renderSource c s
    return .raw "EXISTS (" :: s ++ [.raw ")"]
  | .inSubquery a s => do
    let a ← render c a
    let s ← renderSource c s
    return .raw "(" :: a ++ .raw " IN (" :: s ++ [.raw "))"]
  | .scalar s => do
    let s ← renderSource c s
    return .raw "(" :: s ++ [.raw ")"]
  | .over f ⟨partition, order, frame⟩ => do
    let f ← render c f
    let partition ← renderAll c partition
    let order ← renderOrders c order
    let spec := [listed "PARTITION BY " partition, listed "ORDER BY " order,
      frame.map ([.raw ·])]
    return f ++ .raw " OVER (" :: concat " " spec.reduceOption ++ [.raw ")"]

def renderAll (c : Context) : List Node → Render (List (List Fragment))
  | [] => pure []
  | a :: rest => do
    let a ← render c a
    let rest ← renderAll c rest
    return a :: rest

def renderOrders (c : Context) : List Order → Render (List (List Fragment))
  | [] => pure []
  | ⟨key, descending⟩ :: rest => do
    let key ← render c key
    let rest ← renderOrders c rest
    return (key ++ [.raw (direction descending)]) :: rest

def renderClause (c : Context) (keyword : String) : Option Node → Render (List Fragment)
  | none => pure []
  | some a => do
    let a ← render c a
    return .raw (" " ++ keyword ++ " ") :: a

/-- The JOIN clauses, under the aliases given to their tables. -/
def renderJoins (c : Context) : List Join → List String → Render (List Fragment)
  | [], _ => pure []
  | _ :: _, [] => pure []
  | ⟨kind, target, scope, on⟩ :: joins, a :: aliases => do
    let on ← renderClause c "ON" on
    let rest ← renderJoins c joins aliases
    return .raw (" " ++ kind.keyword ++ " ") :: .table ⟨⟨scope, target⟩, some a⟩ :: on ++ rest

/-- The text of a source. Every table of a select has its alias before any expression renders;
a subquery sees those of the selects around it. -/
def renderSource (c : Context) : Source → Render (List Fragment)
  | .select target scope ⟨_, list, distinct, joins, where_, groupBy, having, qualify, orderBy,
      limit, offset⟩ => do
    let first ← freshAlias
    let aliases ← freshAliases joins
    let c := { c with
      aliases := (scope, first) :: (joins.map Join.scope).zip aliases ++ c.aliases }
    let list ← renderAll c list
    let joined ← renderJoins c joins aliases
    let where_ ← renderClause c "WHERE" where_
    let groupBy ← renderAll c groupBy
    let having ← renderClause c "HAVING" having
    let qualify ← renderClause c "QUALIFY" qualify
    let orderBy ← renderOrders c orderBy
    return [.select (.raw ("SELECT " ++ if distinct then "DISTINCT " else "") ::
      concat ", " list ++ .raw " FROM " :: .table ⟨⟨scope, target⟩, some first⟩ :: joined ++
      where_ ++ (listed " GROUP BY " groupBy).getD [] ++ having ++ qualify ++
      (listed " ORDER BY " orderBy).getD [] ++ number "LIMIT" limit ++ number "OFFSET" offset)]
  | .set op left right => do
    let left ← renderSource c left
    let right ← renderSource c right
    return .raw "(" :: left ++ .raw (") " ++ op ++ " (") :: right ++ [.raw ")"]

end

/-- A request made from typed SQL: the codecs of its parameters and of its rows, and its
text. -/
structure Generated where
  params : List Codec
  columns : List Codec
  sql : List Fragment

/-- The request of the source that a query's callback built from the parameters bound in
`scope`. -/
def query (params : List Codec) (scope : ℕ) (source : Source) : Except Exn Generated := do
  let (sql, _) ← renderSource ⟨[], some scope⟩ source 0
  return ⟨params, source.leftmost.columns, sql⟩

end DuckdbMl.Sql
