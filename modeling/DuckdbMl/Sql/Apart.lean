import DuckdbMl.Sql.Public
import DuckdbMl.Sql.Renaming

/-!
# Typed SQL: the row of an ON condition, told apart

`left_join` gives `~on` the columns of the joined table and gives the body outer values of the same
columns, all in the scope of the table. To say where a column of a query came from, a program is
written here with a scope of its own for the row that `~on` got; giving that row the scope of its
table makes the program's query from it.

## Main definitions

* `Binder`, `Got`: what the scopes of a program were taken for, and what its callbacks got
* `Program`, `Program.code`: what a program builds, and the source that the code makes of it
* `Spot`: a column of a query, with the tables visible there and which may be absent
* `Source.strays`: the left joins whose `~on` let its row out of the condition that it answered
* `Source.Bound`: the columns and tables of a source have the scopes that were taken for them

## Main results

* `Source.map_spots`: the spots of a program are the columns of its query
* `Source.around`: what holds of the tables around every spot
* `Source.strays_of_extended`, `Source.extended_of_strays`: a row that got out stands where its
  table may be absent, and the other way round
-/

namespace DuckdbMl.Sql

/-! ### What callbacks got -/

/-- What a scope was taken for: a table of a FROM, INNER JOIN or CROSS JOIN clause, a left-joined
table, or the row that the `~on` of the left join in `scope` got. -/
inductive Binder
  | table (t : TableDef)
  | left (t : TableDef)
  | onRow (scope : ℕ)

section Program

variable (binds : ℕ → Binder)

/-- The scope that the code gives: `~on` gets its row in the scope of the table. -/
def home (s : ℕ) : ℕ :=
  match binds s with
  | .onRow scope => scope
  | _ => s

/-- The column expressions that callbacks got: rows, the row of an ON condition, and outer values
once they are lifted. -/
inductive Got : Expr → Prop
  | row {s : ℕ} {t : TableDef} {e : Expr} (ht : binds s = .table t)
      (he : e ∈ binders t.columns s) : Got e
  | onRow {r s : ℕ} {t : TableDef} {e : Expr} (hr : binds r = .onRow s) (ht : binds s = .left t)
      (he : e ∈ binders t.columns r) : Got e
  | outer {s : ℕ} {t : TableDef} {o : Outer} (ht : binds s = .left t)
      (ho : o ∈ outerBinders t.columns s) : Got o.lift

end Program

/-! ### Columns and the tables around them -/

/-- A visible table. Its row may be absent if it is left-joined, outside the ON condition of its
join. -/
structure Seen extends Table where
  extended : Bool
  deriving DecidableEq

def Join.seen (j : Join) : Seen := ⟨j.table, j.kind = .left⟩

/-- In its own ON condition a table has its row. -/
def Seen.inOn (scope : ℕ) (t : Seen) : Seen :=
  if t.scope = scope then { t with extended := false } else t

/-- A column of a query and the tables visible there, the closest first. -/
structure Spot where
  seen : List Seen
  scope : ℕ
  name : String
  deriving DecidableEq

def Seen.at (ρ : ℕ → ℕ) (t : Seen) : Table := ⟨ρ t.scope, t.target⟩

/-- The column as the code has it, where scopes are renamed. -/
def Spot.place (ρ : ℕ → ℕ) (p : Spot) : Place :=
  ⟨p.seen.map (Seen.at ρ), .column (ρ p.scope) p.name⟩

/-- The row of the column's table may be absent: the column is one of a left-joined table, outside
that join's own ON condition. -/
def Spot.Extended (ρ : ℕ → ℕ) (p : Spot) : Prop :=
  ∃ t, p.seen.find? (·.scope = ρ p.scope) = some t ∧ t.extended = true

mutual

/-- The tables of an expression's subqueries. -/
def Node.tables : Node → List Seen
  | .column _ _ => []
  | .param _ _ _ => []
  | .literal _ _ => []
  | .apply _ args => nodesTables args
  | .infixOp _ a b => a.tables ++ b.tables
  | .prefixOp _ a => a.tables
  | .postfixOp a _ => a.tables
  | .cast a _ => a.tables
  | .countStar => []
  | .existsIn s => s.tables
  | .inSubquery a s => a.tables ++ s.tables
  | .scalar s => s.tables
  | .over f ⟨partition, order, _⟩ => f.tables ++ nodesTables partition ++ ordersTables order

def nodesTables : List Node → List Seen
  | [] => []
  | a :: rest => a.tables ++ nodesTables rest

def ordersTables : List Order → List Seen
  | [] => []
  | ⟨key, _⟩ :: rest => key.tables ++ ordersTables rest

def clauseTables : Option Node → List Seen
  | none => []
  | some a => a.tables

def joinsTables : List Join → List Seen
  | [] => []
  | ⟨kind, target, scope, on⟩ :: rest =>
    ⟨⟨scope, target⟩, kind = .left⟩ :: clauseTables on ++ joinsTables rest

def Source.tables : Source → List Seen
  | .select target scope ⟨_, list, _, joins, where_, groupBy, having, qualify, orderBy, _, _⟩ =>
    ⟨⟨scope, target⟩, false⟩ :: nodesTables list ++ joinsTables joins ++ clauseTables where_ ++
      nodesTables groupBy ++ clauseTables having ++ clauseTables qualify ++ ordersTables orderBy
  | .set _ left right => left.tables ++ right.tables

end

/-! ### Programs -/

/-- What a program starts from. The scope of a join is a fresh one: what its `~on` answers has no
table of that scope. -/
def envOf (binds : ℕ → Binder) : Env where
  column := Got binds
  table t s := binds s = .table t
  join kind t s on := binds s = (if kind = .left then .left t else .table t) ∧
    ∀ d ∈ clauseTables on, d.scope ≠ s

/-- What a program builds with the constructors, the rows of ON conditions in scopes of their
own. -/
structure Program where
  binds : ℕ → Binder
  source : Source
  isPublic : source.Public (envOf binds)

/-- The source that the code makes of the program. -/
def Program.code (q : Program) : Source := q.source.rename (home q.binds)

/-! ### Spots, strays and bound programs -/

mutual

/-- The columns of an expression, in the order of its uses. -/
def Node.spots (seen : List Seen) : Node → List Spot
  | .column scope name => [⟨seen, scope, name⟩]
  | .param _ _ _ => []
  | .literal _ _ => []
  | .apply _ args => nodesSpots seen args
  | .infixOp _ a b => a.spots seen ++ b.spots seen
  | .prefixOp _ a => a.spots seen
  | .postfixOp a _ => a.spots seen
  | .cast a _ => a.spots seen
  | .countStar => []
  | .existsIn s => s.spots seen
  | .inSubquery a s => a.spots seen ++ s.spots seen
  | .scalar s => s.spots seen
  | .over f ⟨partition, order, _⟩ =>
    f.spots seen ++ nodesSpots seen partition ++ ordersSpots seen order

def nodesSpots (seen : List Seen) : List Node → List Spot
  | [] => []
  | a :: rest => a.spots seen ++ nodesSpots seen rest

def ordersSpots (seen : List Seen) : List Order → List Spot
  | [] => []
  | ⟨key, _⟩ :: rest => key.spots seen ++ ordersSpots seen rest

def clauseSpots (seen : List Seen) : Option Node → List Spot
  | none => []
  | some a => a.spots seen

def joinsSpots (seen : List Seen) : List Join → List Spot
  | [] => []
  | ⟨_, _, scope, on⟩ :: rest => clauseSpots (seen.map (.inOn scope)) on ++ joinsSpots seen rest

def Source.spots (seen : List Seen) : Source → List Spot
  | .select target scope ⟨_, list, _, joins, where_, groupBy, having, qualify, orderBy, _, _⟩ =>
    let inner := ⟨⟨scope, target⟩, false⟩ :: (joins.map Join.seen ++ seen)
    nodesSpots inner list ++ joinsSpots inner joins ++ clauseSpots inner where_ ++
      nodesSpots inner groupBy ++ clauseSpots inner having ++ clauseSpots inner qualify ++
      ordersSpots inner orderBy
  | .set _ left right => left.spots seen ++ right.spots seen

end

mutual

/-- The left joins whose `~on` row an expression is made of; the condition that `~on` answered is
made of it by right. -/
def Node.strays (binds : ℕ → Binder) : Node → List ℕ
  | .column scope _ =>
    match binds scope with
    | .onRow s => [s]
    | _ => []
  | .param _ _ _ => []
  | .literal _ _ => []
  | .apply _ args => nodesStrays binds args
  | .infixOp _ a b => a.strays binds ++ b.strays binds
  | .prefixOp _ a => a.strays binds
  | .postfixOp a _ => a.strays binds
  | .cast a _ => a.strays binds
  | .countStar => []
  | .existsIn s => s.strays binds
  | .inSubquery a s => a.strays binds ++ s.strays binds
  | .scalar s => s.strays binds
  | .over f ⟨partition, order, _⟩ =>
    f.strays binds ++ nodesStrays binds partition ++ ordersStrays binds order

def nodesStrays (binds : ℕ → Binder) : List Node → List ℕ
  | [] => []
  | a :: rest => a.strays binds ++ nodesStrays binds rest

def ordersStrays (binds : ℕ → Binder) : List Order → List ℕ
  | [] => []
  | ⟨key, _⟩ :: rest => key.strays binds ++ ordersStrays binds rest

def clauseStrays (binds : ℕ → Binder) : Option Node → List ℕ
  | none => []
  | some a => a.strays binds

def joinsStrays (binds : ℕ → Binder) : List Join → List ℕ
  | [] => []
  | ⟨_, _, scope, on⟩ :: rest =>
    (clauseStrays binds on).filter (· ≠ scope) ++ joinsStrays binds rest

def Source.strays (binds : ℕ → Binder) : Source → List ℕ
  | .select _ _ ⟨_, list, _, joins, where_, groupBy, having, qualify, orderBy, _, _⟩ =>
    nodesStrays binds list ++ joinsStrays binds joins ++ clauseStrays binds where_ ++
      nodesStrays binds groupBy ++ clauseStrays binds having ++ clauseStrays binds qualify ++
      ordersStrays binds orderBy
  | .set _ left right => left.strays binds ++ right.strays binds

end

mutual

/-- The columns are ones that callbacks got, and the tables have the scopes taken for them. -/
def Node.Bound (binds : ℕ → Binder) : Node → Prop
  | .column scope name => ∃ codec, Got binds ⟨.column scope name, codec⟩
  | .param _ _ _ => True
  | .literal _ _ => True
  | .apply _ args => nodesBound binds args
  | .infixOp _ a b => a.Bound binds ∧ b.Bound binds
  | .prefixOp _ a => a.Bound binds
  | .postfixOp a _ => a.Bound binds
  | .cast a _ => a.Bound binds
  | .countStar => True
  | .existsIn s => s.Bound binds
  | .inSubquery a s => a.Bound binds ∧ s.Bound binds
  | .scalar s => s.Bound binds
  | .over f ⟨partition, order, _⟩ =>
    f.Bound binds ∧ nodesBound binds partition ∧ ordersBound binds order

def nodesBound (binds : ℕ → Binder) : List Node → Prop
  | [] => True
  | a :: rest => a.Bound binds ∧ nodesBound binds rest

def ordersBound (binds : ℕ → Binder) : List Order → Prop
  | [] => True
  | ⟨key, _⟩ :: rest => key.Bound binds ∧ ordersBound binds rest

def clauseBound (binds : ℕ → Binder) : Option Node → Prop
  | none => True
  | some a => a.Bound binds

def joinsBound (binds : ℕ → Binder) : List Join → Prop
  | [] => True
  | ⟨kind, _, scope, on⟩ :: rest =>
    (∃ t, binds scope = if kind = .left then .left t else .table t) ∧
      (∀ d ∈ clauseTables on, d.scope ≠ scope) ∧ clauseBound binds on ∧ joinsBound binds rest

def Source.Bound (binds : ℕ → Binder) : Source → Prop
  | .select _ scope ⟨_, list, _, joins, where_, groupBy, having, qualify, orderBy, _, _⟩ =>
    (∃ t, binds scope = .table t) ∧ nodesBound binds list ∧ joinsBound binds joins ∧
      clauseBound binds where_ ∧ nodesBound binds groupBy ∧ clauseBound binds having ∧
      clauseBound binds qualify ∧ ordersBound binds orderBy
  | .set _ left right => left.Bound binds ∧ right.Bound binds

end

/-! ### Spots are the columns among the uses -/

@[simp] theorem columnPlaces_append (a b : List Place) :
    columnPlaces (a ++ b) = columnPlaces a ++ columnPlaces b :=
  List.filter_append ..

section MapSpots

variable (ρ : ℕ → ℕ)

theorem map_at_inOn (scope : ℕ) (seen : List Seen) :
    (seen.map (Seen.inOn scope)).map (Seen.at ρ) = seen.map (Seen.at ρ) := by
  rw [List.map_map]
  refine List.map_congr_left fun t _ => ?_
  rw [Function.comp_apply, Seen.inOn]
  split <;> rfl

theorem map_at_joins (joins : List Join) :
    (joins.map Join.seen).map (Seen.at ρ) = (renameJoins ρ joins).map Join.table := by
  induction joins with
  | nil => rfl
  | cons j rest ih =>
    obtain ⟨kind, target, scope, on⟩ := j
    exact congrArg (⟨ρ scope, target⟩ :: ·) ih

mutual

theorem Node.map_spots (seen : List Seen) (a : Node) :
    (a.spots seen).map (Spot.place ρ) =
      columnPlaces ((a.rename ρ).uses (seen.map (Seen.at ρ))) := by
  match a with
  | .column scope name => rfl
  | .param _ _ _ => rfl
  | .literal _ _ => rfl
  | .apply _ args => exact nodes_map_spots seen args
  | .infixOp _ a b =>
    rw [Node.spots, Node.rename, Node.uses, List.map_append, columnPlaces_append, a.map_spots,
      b.map_spots]
  | .prefixOp _ a => exact a.map_spots seen
  | .postfixOp a _ => exact a.map_spots seen
  | .cast a _ => exact a.map_spots seen
  | .countStar => rfl
  | .existsIn s => exact s.map_spots seen
  | .inSubquery a s =>
    rw [Node.spots, Node.rename, Node.uses, List.map_append, columnPlaces_append, a.map_spots,
      s.map_spots]
  | .scalar s => exact s.map_spots seen
  | .over f ⟨partition, order, _⟩ =>
    rw [Node.spots, Node.rename, Node.uses, List.map_append, List.map_append, columnPlaces_append,
      columnPlaces_append, f.map_spots, nodes_map_spots, orders_map_spots]

theorem nodes_map_spots (seen : List Seen) (l : List Node) :
    (nodesSpots seen l).map (Spot.place ρ) =
      columnPlaces (nodesUses (seen.map (Seen.at ρ)) (renameNodes ρ l)) := by
  match l with
  | [] => rfl
  | a :: rest =>
    rw [nodesSpots, renameNodes, nodesUses, List.map_append, columnPlaces_append, a.map_spots,
      nodes_map_spots]

theorem orders_map_spots (seen : List Seen) (l : List Order) :
    (ordersSpots seen l).map (Spot.place ρ) =
      columnPlaces (ordersUses (seen.map (Seen.at ρ)) (renameOrders ρ l)) := by
  match l with
  | [] => rfl
  | ⟨key, _⟩ :: rest =>
    rw [ordersSpots, renameOrders, ordersUses, List.map_append, columnPlaces_append, key.map_spots,
      orders_map_spots]

theorem clause_map_spots (seen : List Seen) (o : Option Node) :
    (clauseSpots seen o).map (Spot.place ρ) =
      columnPlaces (clauseUses (seen.map (Seen.at ρ)) (renameClause ρ o)) := by
  match o with
  | none => rfl
  | some a => exact a.map_spots seen

theorem joins_map_spots (seen : List Seen) (joins : List Join) :
    (joinsSpots seen joins).map (Spot.place ρ) =
      columnPlaces (joinsUses (seen.map (Seen.at ρ)) (renameJoins ρ joins)) := by
  match joins with
  | [] => rfl
  | ⟨_, _, scope, on⟩ :: rest =>
    rw [joinsSpots, renameJoins, joinsUses, List.map_append, columnPlaces_append, clause_map_spots,
      map_at_inOn, joins_map_spots]

/-- **The spots of a program are the columns of its query**, in order. -/
theorem Source.map_spots (seen : List Seen) (s : Source) :
    (s.spots seen).map (Spot.place ρ) =
      columnPlaces ((s.rename ρ).uses (seen.map (Seen.at ρ))) := by
  match s with
  | .select target scope ⟨_, list, _, joins, where_, groupBy, having, qualify, orderBy, _, _⟩ =>
    have hinner : (⟨⟨scope, target⟩, false⟩ :: (joins.map Join.seen ++ seen)).map (Seen.at ρ) =
        ⟨ρ scope, target⟩ :: (renameJoins ρ joins).map Join.table ++ seen.map (Seen.at ρ) := by
      rw [List.map_cons, List.map_append, map_at_joins]
      rfl
    simp only [Source.spots, Source.rename, Source.uses, List.map_append, columnPlaces_append,
      nodes_map_spots, joins_map_spots, clause_map_spots, orders_map_spots, hinner]
  | .set _ left right =>
    rw [Source.spots, Source.rename, Source.uses, List.map_append, columnPlaces_append,
      left.map_spots, right.map_spots]

end

end MapSpots

/-! ### In its own ON condition a table has its row -/

/-- The closest table of the scope has its row. -/
def Held (scope : ℕ) (seen : List Seen) : Prop :=
  ∀ t, seen.find? (·.scope = scope) = some t → t.extended = false

theorem find_inOn (scope k : ℕ) (seen : List Seen) :
    (seen.map (Seen.inOn k)).find? (·.scope = scope) =
      (seen.find? (·.scope = scope)).map (Seen.inOn k) := by
  have hscope : (fun t : Seen => decide (t.scope = scope)) ∘ Seen.inOn k =
      fun t => decide (t.scope = scope) := by
    funext t
    simp only [Function.comp_apply, Seen.inOn]
    split <;> rfl
  rw [List.find?_map, hscope]

theorem held_inOn_self (scope : ℕ) (seen : List Seen) :
    Held scope (seen.map (Seen.inOn scope)) := by
  intro t ht
  rw [find_inOn] at ht
  obtain ⟨u, hu, rfl⟩ := Option.map_eq_some_iff.mp ht
  have hs : u.scope = scope := by simpa using List.find?_some hu
  rw [Seen.inOn, if_pos hs]

theorem Held.inOn {scope : ℕ} {seen : List Seen} (h : Held scope seen) (k : ℕ) :
    Held scope (seen.map (Seen.inOn k)) := by
  intro t ht
  rw [find_inOn] at ht
  obtain ⟨u, hu, rfl⟩ := Option.map_eq_some_iff.mp ht
  rw [Seen.inOn]
  split
  · rfl
  · exact h u hu

/-- A table of another scope does not hide it. -/
theorem Held.cons {scope : ℕ} {seen : List Seen} (h : Held scope seen) {t : Seen}
    (ht : t.scope ≠ scope) : Held scope (t :: seen) := by
  intro u hu
  rw [List.find?_cons_of_neg (by simpa using ht)] at hu
  exact h u hu

/-! ### What holds of the tables around a spot -/

section Around

/-- `P` holds in an ON condition as outside it, and with a further table that meets `Q`. -/
structure Around (P : List Seen → Prop) (Q : Seen → Prop) : Prop where
  inOn : ∀ k seen, P seen → P (seen.map (Seen.inOn k))
  cons : ∀ t seen, Q t → P seen → P (t :: seen)

variable {P : List Seen → Prop} {Q : Seen → Prop}

theorem mem_joinsTables {joins : List Join} {j : Join} (h : j ∈ joins) :
    j.seen ∈ joinsTables joins := by
  induction joins with
  | nil => cases h
  | cons i rest ih =>
    obtain ⟨kind, target, scope, on⟩ := i
    rcases List.mem_cons.mp h with rfl | h
    · exact List.mem_cons_self ..
    · exact List.mem_append_right _ (ih h)

theorem forall_mem_append {l m : List Seen} :
    (∀ t ∈ l ++ m, Q t) ↔ (∀ t ∈ l, Q t) ∧ ∀ t ∈ m, Q t := by
  simp only [List.mem_append, or_imp, forall_and]

theorem Around.append (hk : Around P Q) {l seen : List Seen} (hl : ∀ t ∈ l, Q t) (h : P seen) :
    P (l ++ seen) := by
  induction l with
  | nil => exact h
  | cons t rest ih =>
    obtain ⟨ht, hrest⟩ := List.forall_mem_cons.mp hl
    exact hk.cons t _ ht (ih hrest)

mutual

/-- What the tables of an expression add to the tables around it keeps `P`. -/
theorem Node.around (hk : Around P Q) {seen : List Seen} (h : P seen) (a : Node)
    (ha : ∀ t ∈ a.tables, Q t) : ∀ p ∈ a.spots seen, P p.seen := by
  match a with
  | .column _ _ =>
    intro p hp
    rw [List.mem_singleton.mp hp]
    exact h
  | .param _ _ _ | .literal _ _ | .countStar => exact fun p hp => by cases hp
  | .apply _ args => exact nodes_around hk h args ha
  | .prefixOp _ a | .postfixOp a _ | .cast a _ => exact a.around hk h ha
  | .existsIn s | .scalar s => exact s.around hk h ha
  | .infixOp _ a b =>
    obtain ⟨ha, hb⟩ := forall_mem_append.mp ha
    intro p hp
    rcases List.mem_append.mp hp with hp | hp
    · exact a.around hk h ha p hp
    · exact b.around hk h hb p hp
  | .inSubquery a s =>
    obtain ⟨ha, hs⟩ := forall_mem_append.mp ha
    intro p hp
    rcases List.mem_append.mp hp with hp | hp
    · exact a.around hk h ha p hp
    · exact s.around hk h hs p hp
  | .over f ⟨partition, order, _⟩ =>
    obtain ⟨ha, horder⟩ := forall_mem_append.mp ha
    obtain ⟨hf, hpartition⟩ := forall_mem_append.mp ha
    intro p hp
    simp only [Node.spots, List.mem_append] at hp
    rcases hp with (hp | hp) | hp
    · exact f.around hk h hf p hp
    · exact nodes_around hk h partition hpartition p hp
    · exact orders_around hk h order horder p hp

theorem nodes_around (hk : Around P Q) {seen : List Seen} (h : P seen) (l : List Node)
    (hl : ∀ t ∈ nodesTables l, Q t) : ∀ p ∈ nodesSpots seen l, P p.seen := by
  match l with
  | [] => exact fun p hp => by cases hp
  | a :: rest =>
    obtain ⟨ha, hrest⟩ := forall_mem_append.mp hl
    intro p hp
    rcases List.mem_append.mp hp with hp | hp
    · exact a.around hk h ha p hp
    · exact nodes_around hk h rest hrest p hp

theorem orders_around (hk : Around P Q) {seen : List Seen} (h : P seen) (l : List Order)
    (hl : ∀ t ∈ ordersTables l, Q t) : ∀ p ∈ ordersSpots seen l, P p.seen := by
  match l with
  | [] => exact fun p hp => by cases hp
  | ⟨key, _⟩ :: rest =>
    obtain ⟨hkey, hrest⟩ := forall_mem_append.mp hl
    intro p hp
    rcases List.mem_append.mp hp with hp | hp
    · exact key.around hk h hkey p hp
    · exact orders_around hk h rest hrest p hp

theorem clause_around (hk : Around P Q) {seen : List Seen} (h : P seen) (o : Option Node)
    (ho : ∀ t ∈ clauseTables o, Q t) : ∀ p ∈ clauseSpots seen o, P p.seen := by
  match o with
  | none => exact fun p hp => by cases hp
  | some a => exact a.around hk h ho

theorem joins_around (hk : Around P Q) {seen : List Seen} (h : P seen) (joins : List Join)
    (hj : ∀ t ∈ joinsTables joins, Q t) : ∀ p ∈ joinsSpots seen joins, P p.seen := by
  match joins with
  | [] => exact fun p hp => by cases hp
  | ⟨_, _, k, on⟩ :: rest =>
    obtain ⟨hfirst, hrest⟩ := forall_mem_append.mp hj
    intro p hp
    rcases List.mem_append.mp hp with hp | hp
    · have hon : ∀ t ∈ clauseTables on, Q t := fun t ht => hfirst t (List.mem_cons_of_mem _ ht)
      exact clause_around hk (hk.inOn k seen h) on hon p hp
    · exact joins_around hk h rest hrest p hp

theorem Source.around (hk : Around P Q) {seen : List Seen} (h : P seen) (s : Source)
    (hs : ∀ t ∈ s.tables, Q t) : ∀ p ∈ s.spots seen, P p.seen := by
  match s with
  | .select target own ⟨_, list, _, joins, where_, groupBy, having, qualify, orderBy, _, _⟩ =>
    simp only [Source.tables, forall_mem_append, List.forall_mem_cons] at hs
    obtain ⟨⟨⟨⟨⟨⟨⟨hown, hlist⟩, hjoins⟩, hwhere⟩, hgroup⟩, hhaving⟩, hqualify⟩, horder⟩ := hs
    -- a select adds its target and its joined tables to those around it
    have hinner : P (⟨⟨own, target⟩, false⟩ :: (joins.map Join.seen ++ seen)) := by
      refine hk.cons _ _ hown (hk.append (fun t ht => ?_) h)
      obtain ⟨j, hj, rfl⟩ := List.mem_map.mp ht
      exact hjoins _ (mem_joinsTables hj)
    intro p hp
    simp only [Source.spots, List.mem_append] at hp
    rcases hp with (((((hp | hp) | hp) | hp) | hp) | hp) | hp
    · exact nodes_around hk hinner list hlist p hp
    · exact joins_around hk hinner joins hjoins p hp
    · exact clause_around hk hinner where_ hwhere p hp
    · exact nodes_around hk hinner groupBy hgroup p hp
    · exact clause_around hk hinner having hhaving p hp
    · exact clause_around hk hinner qualify hqualify p hp
    · exact orders_around hk hinner orderBy horder p hp
  | .set _ left right =>
    obtain ⟨hl, hr⟩ := forall_mem_append.mp hs
    intro p hp
    rcases List.mem_append.mp hp with hp | hp
    · exact left.around hk h hl p hp
    · exact right.around hk h hr p hp

end

end Around

theorem around_held (scope : ℕ) : Around (Held scope) (·.scope ≠ scope) where
  inOn k _ h := h.inOn k
  cons _ _ ht h := h.cons ht

/-! ### A row that stands where its table may be absent got out -/

section Strays

variable {binds : ℕ → Binder}

/-- The column is one of the row that the `~on` of the left join in `scope` got. -/
def Spot.OnRow (binds : ℕ → Binder) (scope : ℕ) (p : Spot) : Prop := binds p.scope = .onRow scope

theorem Spot.OnRow.home {scope : ℕ} {p : Spot} (h : p.OnRow binds scope) :
    home binds p.scope = scope := by
  rw [DuckdbMl.Sql.home, h]

mutual

theorem Node.strays_of_extended {scope : ℕ} {seen : List Seen} (a : Node) (ha : a.Bound binds)
    {p : Spot} (hp : p ∈ a.spots seen) (hr : p.OnRow binds scope)
    (hx : p.Extended (home binds)) : scope ∈ a.strays binds := by
  match a with
  | .column s name =>
    rw [List.mem_singleton.mp hp] at hr
    have hs : binds s = .onRow scope := hr
    rw [Node.strays, hs]
    exact List.mem_singleton_self _
  | .param _ _ _ | .literal _ _ | .countStar => cases hp
  | .apply _ args => exact nodes_strays_of_extended args ha hp hr hx
  | .prefixOp _ a | .postfixOp a _ | .cast a _ => exact a.strays_of_extended ha hp hr hx
  | .existsIn s | .scalar s => exact s.strays_of_extended ha hp hr hx
  | .infixOp _ a b =>
    rcases List.mem_append.mp hp with hp | hp
    · exact List.mem_append_left _ (a.strays_of_extended ha.1 hp hr hx)
    · exact List.mem_append_right _ (b.strays_of_extended ha.2 hp hr hx)
  | .inSubquery a s =>
    rcases List.mem_append.mp hp with hp | hp
    · exact List.mem_append_left _ (a.strays_of_extended ha.1 hp hr hx)
    · exact List.mem_append_right _ (s.strays_of_extended ha.2 hp hr hx)
  | .over f ⟨partition, order, _⟩ =>
    simp only [Node.spots, List.mem_append] at hp
    simp only [Node.strays, List.mem_append]
    rcases hp with (hp | hp) | hp
    · exact .inl (.inl (f.strays_of_extended ha.1 hp hr hx))
    · exact .inl (.inr (nodes_strays_of_extended partition ha.2.1 hp hr hx))
    · exact .inr (orders_strays_of_extended order ha.2.2 hp hr hx)

theorem nodes_strays_of_extended {scope : ℕ} {seen : List Seen} (l : List Node)
    (hl : nodesBound binds l) {p : Spot} (hp : p ∈ nodesSpots seen l) (hr : p.OnRow binds scope)
    (hx : p.Extended (home binds)) : scope ∈ nodesStrays binds l := by
  match l with
  | [] => cases hp
  | a :: rest =>
    rcases List.mem_append.mp hp with hp | hp
    · exact List.mem_append_left _ (a.strays_of_extended hl.1 hp hr hx)
    · exact List.mem_append_right _ (nodes_strays_of_extended rest hl.2 hp hr hx)

theorem orders_strays_of_extended {scope : ℕ} {seen : List Seen} (l : List Order)
    (hl : ordersBound binds l) {p : Spot} (hp : p ∈ ordersSpots seen l) (hr : p.OnRow binds scope)
    (hx : p.Extended (home binds)) : scope ∈ ordersStrays binds l := by
  match l with
  | [] => cases hp
  | ⟨key, _⟩ :: rest =>
    rcases List.mem_append.mp hp with hp | hp
    · exact List.mem_append_left _ (key.strays_of_extended hl.1 hp hr hx)
    · exact List.mem_append_right _ (orders_strays_of_extended rest hl.2 hp hr hx)

theorem clause_strays_of_extended {scope : ℕ} {seen : List Seen} (o : Option Node)
    (ho : clauseBound binds o) {p : Spot} (hp : p ∈ clauseSpots seen o) (hr : p.OnRow binds scope)
    (hx : p.Extended (home binds)) : scope ∈ clauseStrays binds o := by
  match o with
  | none => cases hp
  | some a => exact a.strays_of_extended ho hp hr hx

theorem joins_strays_of_extended {scope : ℕ} {seen : List Seen} (joins : List Join)
    (hj : joinsBound binds joins) {p : Spot} (hp : p ∈ joinsSpots seen joins)
    (hr : p.OnRow binds scope) (hx : p.Extended (home binds)) :
    scope ∈ joinsStrays binds joins := by
  match joins with
  | [] => cases hp
  | ⟨_, _, k, on⟩ :: rest =>
    obtain ⟨-, hfresh, hon, hrest⟩ := hj
    rcases List.mem_append.mp hp with hp | hp
    · refine List.mem_append_left _ (List.mem_filter.mpr
        ⟨clause_strays_of_extended on hon hp hr hx, decide_eq_true fun he => ?_⟩)
      -- the join's own table has its row throughout the condition
      obtain ⟨t, ht, hext⟩ := hx
      rw [hr.home, he] at ht
      have hfalse := clause_around (around_held k) (held_inOn_self k seen) on hfresh p hp t ht
      exact Bool.false_ne_true (hfalse.symm.trans hext)
    · exact List.mem_append_right _ (joins_strays_of_extended rest hrest hp hr hx)

theorem Source.strays_of_extended {scope : ℕ} {seen : List Seen} (s : Source)
    (hs : s.Bound binds) {p : Spot} (hp : p ∈ s.spots seen) (hr : p.OnRow binds scope)
    (hx : p.Extended (home binds)) : scope ∈ s.strays binds := by
  match s with
  | .select target own ⟨_, list, _, joins, where_, groupBy, having, qualify, orderBy, _, _⟩ =>
    obtain ⟨-, hlist, hjoins, hwhere, hgroup, hhaving, hqualify, horder⟩ := hs
    simp only [Source.spots, List.mem_append] at hp
    simp only [Source.strays, List.mem_append]
    -- wherever in the select the spot is, that part has the row
    rcases hp with (((((hp | hp) | hp) | hp) | hp) | hp) | hp
    · exact .inl (.inl (.inl (.inl (.inl (.inl (nodes_strays_of_extended list hlist hp hr hx))))))
    · exact .inl (.inl (.inl (.inl (.inl (.inr (joins_strays_of_extended joins hjoins hp hr hx))))))
    · exact .inl (.inl (.inl (.inl (.inr (clause_strays_of_extended where_ hwhere hp hr hx)))))
    · exact .inl (.inl (.inl (.inr (nodes_strays_of_extended groupBy hgroup hp hr hx))))
    · exact .inl (.inl (.inr (clause_strays_of_extended having hhaving hp hr hx)))
    · exact .inl (.inr (clause_strays_of_extended qualify hqualify hp hr hx))
    · exact .inr (orders_strays_of_extended orderBy horder hp hr hx)
  | .set _ left right =>
    rcases List.mem_append.mp hp with hp | hp
    · exact List.mem_append_left _ (left.strays_of_extended hs.1 hp hr hx)
    · exact List.mem_append_right _ (right.strays_of_extended hs.2 hp hr hx)

end

/-- A table whose row may be absent has the scope of a left join. -/
def Seen.Honest (binds : ℕ → Binder) (t : Seen) : Prop :=
  t.extended = true → ∃ d, binds t.scope = .left d

mutual

theorem Node.honest (a : Node) (ha : a.Bound binds) : ∀ t ∈ a.tables, t.Honest binds := by
  match a with
  | .column _ _ | .param _ _ _ | .literal _ _ | .countStar => exact fun t ht => by cases ht
  | .apply _ args => exact nodes_honest args ha
  | .prefixOp _ a | .postfixOp a _ | .cast a _ => exact a.honest ha
  | .existsIn s | .scalar s => exact s.honest ha
  | .infixOp _ a b => exact forall_mem_append.mpr ⟨a.honest ha.1, b.honest ha.2⟩
  | .inSubquery a s => exact forall_mem_append.mpr ⟨a.honest ha.1, s.honest ha.2⟩
  | .over f ⟨partition, order, _⟩ =>
    obtain ⟨hf, hpartition, horder⟩ := ha
    exact forall_mem_append.mpr ⟨forall_mem_append.mpr ⟨f.honest hf,
      nodes_honest partition hpartition⟩, orders_honest order horder⟩

theorem nodes_honest (l : List Node) (hl : nodesBound binds l) :
    ∀ t ∈ nodesTables l, t.Honest binds := by
  match l with
  | [] => exact fun t ht => by cases ht
  | a :: rest => exact forall_mem_append.mpr ⟨a.honest hl.1, nodes_honest rest hl.2⟩

theorem orders_honest (l : List Order) (hl : ordersBound binds l) :
    ∀ t ∈ ordersTables l, t.Honest binds := by
  match l with
  | [] => exact fun t ht => by cases ht
  | ⟨key, _⟩ :: rest => exact forall_mem_append.mpr ⟨key.honest hl.1, orders_honest rest hl.2⟩

theorem clause_honest (o : Option Node) (ho : clauseBound binds o) :
    ∀ t ∈ clauseTables o, t.Honest binds := by
  match o with
  | none => exact fun t ht => by cases ht
  | some a => exact a.honest ho

theorem joins_honest (joins : List Join) (hj : joinsBound binds joins) :
    ∀ t ∈ joinsTables joins, t.Honest binds := by
  match joins with
  | [] => exact fun t ht => by cases ht
  | ⟨kind, target, scope, on⟩ :: rest =>
    obtain ⟨⟨d, hd⟩, -, hon, hrest⟩ := hj
    have hfirst : Seen.Honest binds ⟨⟨scope, target⟩, kind = .left⟩ := fun hk =>
      ⟨d, hd.trans (if_pos (of_decide_eq_true hk))⟩
    exact forall_mem_append.mpr ⟨List.forall_mem_cons.mpr ⟨hfirst, clause_honest on hon⟩,
      joins_honest rest hrest⟩

theorem Source.honest (s : Source) (hs : s.Bound binds) : ∀ t ∈ s.tables, t.Honest binds := by
  match s with
  | .select target own ⟨_, list, _, joins, where_, groupBy, having, qualify, orderBy, _, _⟩ =>
    obtain ⟨-, hlist, hjoins, hwhere, hgroup, hhaving, hqualify, horder⟩ := hs
    simp only [Source.tables, forall_mem_append, List.forall_mem_cons]
    exact ⟨⟨⟨⟨⟨⟨⟨nofun, nodes_honest list hlist⟩, joins_honest joins hjoins⟩,
      clause_honest where_ hwhere⟩, nodes_honest groupBy hgroup⟩, clause_honest having hhaving⟩,
      clause_honest qualify hqualify⟩, orders_honest orderBy horder⟩
  | .set _ left right => exact forall_mem_append.mpr ⟨left.honest hs.1, right.honest hs.2⟩

end

theorem around_honest :
    Around (fun seen => ∀ t ∈ seen, t.Honest binds) (Seen.Honest binds) where
  inOn k seen h t ht := by
    obtain ⟨u, hu, rfl⟩ := List.mem_map.mp ht
    rw [Seen.inOn]
    split
    · exact fun hx => by cases hx
    · exact h u hu
  cons t seen ht h := List.forall_mem_cons.mpr ⟨ht, h⟩

/-- A column that may be NULL-extended is one of a left-joined table. -/
theorem left_of_extended {s : Source} (hs : s.Bound binds) {p : Spot} (hp : p ∈ s.spots [])
    (hx : p.Extended (home binds)) : ∃ d, binds (home binds p.scope) = .left d := by
  obtain ⟨t, ht, hext⟩ := hx
  have hscope : t.scope = home binds p.scope := by simpa using List.find?_some ht
  have haround := s.around around_honest (fun t ht => by cases ht) (s.honest hs) p hp
  obtain ⟨d, hd⟩ := haround t (List.mem_of_find?_eq_some ht) hext
  exact ⟨d, hscope ▸ hd⟩

/-- The tables in scope have the scopes taken for them, and the left-joined ones may be absent
where the condition is none of theirs; `within` are the joins whose conditions are around. -/
def Extends (binds : ℕ → Binder) (within : List ℕ) (seen : List Seen) : Prop :=
  ∀ t ∈ seen, home binds t.scope = t.scope ∧
    ∀ d, binds t.scope = .left d → t.scope ∉ within → t.extended = true

variable {within : List ℕ} {seen : List Seen}

theorem Extends.inOn (h : Extends binds within seen) (k : ℕ) :
    Extends binds (k :: within) (seen.map (Seen.inOn k)) := by
  intro t ht
  obtain ⟨u, hu, rfl⟩ := List.mem_map.mp ht
  obtain ⟨hhome, hext⟩ := h u hu
  rw [Seen.inOn]
  split
  case isTrue hs => exact ⟨hhome, fun d _ hn => absurd (List.mem_cons.mpr (.inl hs)) hn⟩
  case isFalse => exact ⟨hhome, fun d hd hn => hext d hd fun hm => hn (List.mem_cons_of_mem _ hm)⟩

theorem exists_of_joinsBound {joins : List Join} (h : joinsBound binds joins) {j : Join}
    (hj : j ∈ joins) : ∃ t, binds j.scope = if j.kind = .left then .left t else .table t := by
  induction joins with
  | nil => cases hj
  | cons i rest ih =>
    obtain ⟨kind, target, scope, on⟩ := i
    obtain ⟨ht, -, -, hrest⟩ := h
    rcases List.mem_cons.mp hj with rfl | hj
    · exact ht
    · exact ih hrest hj

theorem Extends.select (h : Extends binds within seen) {own : ℕ} {target : String}
    {joins : List Join} (hown : ∃ t, binds own = .table t) (hj : joinsBound binds joins) :
    Extends binds within (⟨⟨own, target⟩, false⟩ :: (joins.map Join.seen ++ seen)) := by
  intro t ht
  rcases List.mem_cons.mp ht with rfl | ht
  · obtain ⟨d, hd⟩ := hown
    exact ⟨by rw [home, hd], fun d' hd' _ => by cases hd.symm.trans hd'⟩
  rcases List.mem_append.mp ht with ht | ht
  · obtain ⟨j, hm, rfl⟩ := List.mem_map.mp ht
    obtain ⟨d, hd⟩ := exists_of_joinsBound hj hm
    by_cases hk : j.kind = .left
    · rw [if_pos hk] at hd
      exact ⟨by change home binds j.scope = j.scope; rw [home, hd], fun _ _ _ => decide_eq_true hk⟩
    · rw [if_neg hk] at hd
      exact ⟨by change home binds j.scope = j.scope; rw [home, hd],
        fun d' hd' _ => by cases hd.symm.trans hd'⟩
  · exact h t ht

/-- Every column's table is in scope. -/
def InScope (binds : ℕ → Binder) (l : List Spot) : Prop :=
  ∀ p ∈ l, home binds p.scope ∈ p.seen.map fun t => home binds t.scope

/-- A column of the row that the `~on` of the left join in `scope` got stands where the joined table
may be absent. -/
def GotOut (binds : ℕ → Binder) (scope : ℕ) (l : List Spot) : Prop :=
  ∃ p ∈ l, p.OnRow binds scope ∧ p.Extended (home binds)

theorem InScope.left {l m : List Spot} (h : InScope binds (l ++ m)) : InScope binds l :=
  fun p hp => h p (List.mem_append_left _ hp)

theorem InScope.right {l m : List Spot} (h : InScope binds (l ++ m)) : InScope binds m :=
  fun p hp => h p (List.mem_append_right _ hp)

theorem GotOut.left {scope : ℕ} {l : List Spot} (h : GotOut binds scope l) (m : List Spot) :
    GotOut binds scope (l ++ m) := by
  obtain ⟨p, hp, hr⟩ := h
  exact ⟨p, List.mem_append_left _ hp, hr⟩

theorem GotOut.right {scope : ℕ} {m : List Spot} (h : GotOut binds scope m) (l : List Spot) :
    GotOut binds scope (l ++ m) := by
  obtain ⟨p, hp, hr⟩ := h
  exact ⟨p, List.mem_append_right _ hp, hr⟩

theorem Outer.lift_node (o : Outer) : o.lift.node = o.expr.node := by
  rw [Outer.lift]
  split <;> rfl

/-- The scope of a row that `~on` got is that of a left join. -/
theorem exists_left_of_got {r scope : ℕ} {name : String} {codec : Codec}
    (h : Got binds ⟨.column r name, codec⟩) (hr : binds r = .onRow scope) :
    ∃ t, binds scope = .left t := by
  generalize he : (⟨.column r name, codec⟩ : Expr) = e at h
  cases h with
  | row ht hm =>
    obtain ⟨c, -, rfl⟩ := List.mem_map.mp hm
    obtain ⟨rfl, -⟩ := Node.column.inj (Expr.mk.inj he).1
    cases hr.symm.trans ht
  -- a scope binds one thing, so that the row is that of the left join
  | onRow hr' ht hm =>
    obtain ⟨c, -, rfl⟩ := List.mem_map.mp hm
    obtain ⟨rfl, -⟩ := Node.column.inj (Expr.mk.inj he).1
    obtain rfl := Binder.onRow.inj (hr.symm.trans hr')
    exact ⟨_, ht⟩
  | @outer s t o ht hm =>
    obtain ⟨c, -, rfl⟩ := List.mem_map.mp hm
    have hcolumn := (congrArg Expr.node he).trans (Outer.lift_node _)
    obtain ⟨rfl, -⟩ := Node.column.inj hcolumn
    cases hr.symm.trans ht

mutual

theorem Node.extended_of_strays {scope : ℕ} {within : List ℕ} {seen : List Seen}
    (hf : Extends binds within seen) (hw : scope ∉ within) (a : Node) (ha : a.Bound binds)
    (hin : InScope binds (a.spots seen))
    (hs : scope ∈ a.strays binds) : GotOut binds scope (a.spots seen) := by
  match a with
  | .column r name =>
    have hr : binds r = .onRow scope := by
      rw [Node.strays] at hs
      split at hs
      case h_1 s hb => rw [hb, List.mem_singleton.mp hs]
      case h_2 => cases hs
    have hhome : home binds r = scope := by rw [home, hr]
    obtain ⟨codec, hg⟩ := ha
    obtain ⟨d, hd⟩ := exists_left_of_got hg hr
    obtain ⟨t, ht, he⟩ := List.mem_map.mp (hin ⟨seen, r, name⟩ (List.mem_singleton_self _))
    have hscope : t.scope = scope := (hf t ht).1.symm.trans (he.trans hhome)
    -- the closest table of the scope is a left-joined one that may be absent
    have hsome : (seen.find? (·.scope = scope)).isSome := by
      rw [List.find?_isSome]
      exact ⟨t, ht, decide_eq_true hscope⟩
    obtain ⟨u, hu⟩ := Option.isSome_iff_exists.mp hsome
    have hus : u.scope = scope := by simpa using List.find?_some hu
    have hext := (hf u (List.mem_of_find?_eq_some hu)).2 d (hus ▸ hd) (hus ▸ hw)
    exact ⟨⟨seen, r, name⟩, List.mem_singleton_self _, hr, u, by rw [hhome]; exact hu, hext⟩
  | .param _ _ _ | .literal _ _ | .countStar => cases hs
  | .apply _ args => exact nodes_extended_of_strays hf hw args ha hin hs
  | .prefixOp _ a | .postfixOp a _ | .cast a _ => exact a.extended_of_strays hf hw ha hin hs
  | .existsIn s | .scalar s => exact s.extended_of_strays hf hw ha hin hs
  | .infixOp _ a b =>
    rcases List.mem_append.mp hs with hs | hs
    · exact (a.extended_of_strays hf hw ha.1 hin.left hs).left _
    · exact (b.extended_of_strays hf hw ha.2 hin.right hs).right _
  | .inSubquery a s =>
    rcases List.mem_append.mp hs with hs | hs
    · exact (a.extended_of_strays hf hw ha.1 hin.left hs).left _
    · exact (s.extended_of_strays hf hw ha.2 hin.right hs).right _
  | .over f ⟨partition, order, _⟩ =>
    simp only [Node.strays, List.mem_append] at hs
    rcases hs with (hs | hs) | hs
    · exact ((f.extended_of_strays hf hw ha.1 hin.left.left hs).left _).left _
    · exact ((nodes_extended_of_strays hf hw partition ha.2.1 hin.left.right hs).right _).left _
    · exact (orders_extended_of_strays hf hw order ha.2.2 hin.right hs).right _

theorem nodes_extended_of_strays {scope : ℕ} {within : List ℕ} {seen : List Seen}
    (hf : Extends binds within seen) (hw : scope ∉ within) (l : List Node) (hl : nodesBound binds l)
    (hin : InScope binds (nodesSpots seen l))
    (hs : scope ∈ nodesStrays binds l) : GotOut binds scope (nodesSpots seen l) := by
  match l with
  | [] => cases hs
  | a :: rest =>
    rcases List.mem_append.mp hs with hs | hs
    · exact (a.extended_of_strays hf hw hl.1 hin.left hs).left _
    · exact (nodes_extended_of_strays hf hw rest hl.2 hin.right hs).right _

theorem orders_extended_of_strays {scope : ℕ} {within : List ℕ} {seen : List Seen}
    (hf : Extends binds within seen) (hw : scope ∉ within) (l : List Order)
    (hl : ordersBound binds l)
    (hin : InScope binds (ordersSpots seen l))
    (hs : scope ∈ ordersStrays binds l) : GotOut binds scope (ordersSpots seen l) := by
  match l with
  | [] => cases hs
  | ⟨key, _⟩ :: rest =>
    rcases List.mem_append.mp hs with hs | hs
    · exact (key.extended_of_strays hf hw hl.1 hin.left hs).left _
    · exact (orders_extended_of_strays hf hw rest hl.2 hin.right hs).right _

theorem clause_extended_of_strays {scope : ℕ} {within : List ℕ} {seen : List Seen}
    (hf : Extends binds within seen) (hw : scope ∉ within) (o : Option Node)
    (ho : clauseBound binds o)
    (hin : InScope binds (clauseSpots seen o))
    (hs : scope ∈ clauseStrays binds o) : GotOut binds scope (clauseSpots seen o) := by
  match o with
  | none => cases hs
  | some a => exact a.extended_of_strays hf hw ho hin hs

theorem joins_extended_of_strays {scope : ℕ} {within : List ℕ} {seen : List Seen}
    (hf : Extends binds within seen) (hw : scope ∉ within) (joins : List Join)
    (hj : joinsBound binds joins)
    (hin : InScope binds (joinsSpots seen joins))
    (hs : scope ∈ joinsStrays binds joins) : GotOut binds scope (joinsSpots seen joins) := by
  match joins with
  | [] => cases hs
  | ⟨_, _, k, on⟩ :: rest =>
    obtain ⟨-, -, hon, hrest⟩ := hj
    rcases List.mem_append.mp hs with hs | hs
    · obtain ⟨hs, hk⟩ := List.mem_filter.mp hs
      have hne : scope ≠ k := by simpa using hk
      have hw' : scope ∉ k :: within := fun hm => (List.mem_cons.mp hm).elim hne hw
      exact (clause_extended_of_strays (hf.inOn k) hw' on hon hin.left hs).left _
    · exact (joins_extended_of_strays hf hw rest hrest hin.right hs).right _

theorem Source.extended_of_strays {scope : ℕ} {within : List ℕ} {seen : List Seen}
    (hf : Extends binds within seen) (hw : scope ∉ within) (s : Source) (hb : s.Bound binds)
    (hin : InScope binds (s.spots seen))
    (hs : scope ∈ s.strays binds) : GotOut binds scope (s.spots seen) := by
  match s with
  | .select target own ⟨_, list, _, joins, where_, groupBy, having, qualify, orderBy, _, _⟩ =>
    obtain ⟨hown, hlist, hjoins, hwhere, hgroup, hhaving, hqualify, horder⟩ := hb
    have hinner : Extends binds within (⟨⟨own, target⟩, false⟩ :: (joins.map Join.seen ++ seen)) :=
      hf.select hown hjoins
    simp only [Source.strays, List.mem_append] at hs
    rw [Source.spots] at hin ⊢
    rcases hs with (((((hs | hs) | hs) | hs) | hs) | hs) | hs
    · exact ((((((nodes_extended_of_strays hinner hw list hlist
        hin.left.left.left.left.left.left hs).left _).left _).left _).left _).left _).left _
    · exact ((((((joins_extended_of_strays hinner hw joins hjoins
        hin.left.left.left.left.left.right hs).right _).left _).left _).left _).left _).left _
    · exact (((((clause_extended_of_strays hinner hw where_ hwhere
        hin.left.left.left.left.right hs).right _).left _).left _).left _).left _
    · exact ((((nodes_extended_of_strays hinner hw groupBy hgroup
        hin.left.left.left.right hs).right _).left _).left _).left _
    · exact (((clause_extended_of_strays hinner hw having hhaving
        hin.left.left.right hs).right _).left _).left _
    · exact ((clause_extended_of_strays hinner hw qualify hqualify
        hin.left.right hs).right _).left _
    · exact (orders_extended_of_strays hinner hw orderBy horder hin.right hs).right _
  | .set _ left right =>
    rcases List.mem_append.mp hs with hs | hs
    · exact (left.extended_of_strays hf hw hb.1 hin.left hs).left _
    · exact (right.extended_of_strays hf hw hb.2 hin.right hs).right _

end

end Strays

end DuckdbMl.Sql
