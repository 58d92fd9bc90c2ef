import DuckdbMl.Sql.Write

/-!
# Typed SQL: scope numbers

Scopes are numbers from a counter of the process. The text of a query or a statement depends on
which scopes are the same, not on their numbers; its aliases are numbered in the order in which
the selects open.

## Main definitions

* `Node.rename`, `Source.rename`, `Statement.rename`: other scope numbers
* `renameText`: a text whose columns and tables carry other scope numbers

## Main results

* `render_rename`, `renderSource_rename`: rendering commutes with an injective renaming
* `renderStatement_rename`: so does that of write statements
* `query_rename`, `command_rename`: requests do not depend on scope numbers
-/

namespace DuckdbMl.Sql

/-! ### Renaming -/

section Rename

variable (ρ : ℕ → ℕ)

mutual

/-- The expression with other scope numbers. -/
def Node.rename : Node → Node
  | .column scope name => .column (ρ scope) name
  | .param scope index sqlType => .param (ρ scope) index sqlType
  | .literal sql constant => .literal sql constant
  | .apply name args => .apply name (renameNodes args)
  | .infixOp op a b => .infixOp op a.rename b.rename
  | .prefixOp op a => .prefixOp op a.rename
  | .postfixOp a op => .postfixOp a.rename op
  | .cast a sqlType => .cast a.rename sqlType
  | .countStar => .countStar
  | .existsIn s => .existsIn s.rename
  | .inSubquery a s => .inSubquery a.rename s.rename
  | .scalar s => .scalar s.rename
  | .over f ⟨partition, order, frame⟩ =>
    .over f.rename ⟨renameNodes partition, renameOrders order, frame⟩

def renameNodes : List Node → List Node
  | [] => []
  | a :: rest => a.rename :: renameNodes rest

def renameOrders : List Order → List Order
  | [] => []
  | ⟨key, descending⟩ :: rest => ⟨key.rename, descending⟩ :: renameOrders rest

def renameClause : Option Node → Option Node
  | none => none
  | some a => some a.rename

def renameJoins : List Join → List Join
  | [] => []
  | ⟨kind, target, scope, on⟩ :: rest =>
    ⟨kind, target, ρ scope, renameClause on⟩ :: renameJoins rest

def Source.rename : Source → Source
  | .select target scope ⟨columns, list, distinct, joins, where_, groupBy, having, qualify, orderBy,
      limit, offset⟩ =>
    .select target (ρ scope) ⟨columns, renameNodes list, distinct, renameJoins joins,
      renameClause where_, renameNodes groupBy, renameClause having, renameClause qualify,
      renameOrders orderBy, limit, offset⟩
  | .set op left right => .set op left.rename right.rename

end

def Assignment.rename (a : Assignment) : Assignment := ⟨ρ a.scope, a.column, a.value.rename ρ⟩

def Result.rename : Result → Result
  | .count => .count
  | .returning columns list => .returning columns (renameNodes ρ list)

def ConflictUpdate.rename (u : ConflictUpdate) : ConflictUpdate :=
  ⟨ρ u.excluded, u.assignments.map (.rename ρ), renameClause ρ u.where_⟩

def ResolvedConflict.rename (c : ResolvedConflict) : ResolvedConflict :=
  ⟨c.names, c.update.map (.rename ρ)⟩

def StatementKind.rename : StatementKind → StatementKind
  | .updateStatement assignments where_ =>
    .updateStatement (assignments.map (.rename ρ)) (renameClause ρ where_)
  | .deleteStatement where_ => .deleteStatement (renameClause ρ where_)
  | .insertValues assignments conflict =>
    .insertValues (assignments.map (.rename ρ)) (conflict.map (.rename ρ))
  | .insertSelect columns source conflict =>
    .insertSelect columns (source.rename ρ) (conflict.map (.rename ρ))

/-- The statement with other scope numbers. -/
def Statement.rename (st : Statement) : Statement :=
  ⟨st.target, ρ st.scope, st.kind.rename ρ, st.result.rename ρ⟩

def Context.rename (c : Context) : Context :=
  ⟨c.aliases.map fun a => (ρ a.1, a.2), c.params.map ρ⟩

end Rename

/-! ### Renamed texts -/

section RenameText

variable (ρ : ℕ → ℕ)

def Occurrence.rename (t : Occurrence) : Occurrence := ⟨⟨ρ t.scope, t.target⟩, t.aliasName⟩

mutual

/-- The fragment of a tree with other scope numbers. -/
def Fragment.rename : Fragment → Fragment
  | .raw text => .raw text
  | .column qualifier name scope => .column qualifier name (ρ scope)
  | .table t => .table (t.rename ρ)
  | .select pieces => .select (renameText pieces)

def renameText : List Fragment → List Fragment
  | [] => []
  | f :: rest => f.rename :: renameText rest

end

def Region.rename (g : Region) : Region :=
  ⟨g.levels.map (.map (.rename ρ)), renameText ρ g.pieces⟩

mutual

/-- A scope number is not part of the text. -/
theorem Fragment.text_rename (f : Fragment) : (f.rename ρ).text = f.text := by
  match f with
  | .raw _ => rfl
  | .column none _ _ => rfl
  | .column (some _) _ _ => rfl
  | .table ⟨⟨_, _⟩, none⟩ => rfl
  | .table ⟨⟨_, _⟩, some _⟩ => rfl
  | .select pieces => exact textOf_renameText pieces

theorem textOf_renameText (ps : List Fragment) : textOf (renameText ρ ps) = textOf ps := by
  match ps with
  | [] => rfl
  | f :: rest => rw [renameText, textOf, textOf, f.text_rename, textOf_renameText rest]

end

theorem regionsText_rename (l : List Region) :
    regionsText (l.map (.rename ρ)) = regionsText l := by
  induction l with
  | nil => rfl
  | cons g rest ih => simp only [List.map_cons, regionsText, Region.rename, textOf_renameText, ih]

variable {ps qs : List Fragment} {l : List (List Fragment)} {sep keyword : String}

@[simp] theorem renameText_append :
    renameText ρ (ps ++ qs) = renameText ρ ps ++ renameText ρ qs := by
  induction ps with
  | nil => rfl
  | cons f rest ih => simp only [List.cons_append, renameText, ih]

@[simp] theorem renameText_concat :
    renameText ρ (concat sep l) = concat sep (l.map (renameText ρ)) := by
  fun_induction concat sep l with
  | case1 => rfl
  | case2 a => rfl
  | case3 a rest h ih =>
    rw [renameText_append, renameText, Fragment.rename, ih]
    cases rest with
    | nil => exact (h rfl).elim
    | cons b rest => rfl

theorem renameText_listed :
    (listed keyword l).map (renameText ρ) = listed keyword (l.map (renameText ρ)) := by
  cases l with
  | nil => rfl
  | cons a rest =>
    change some (renameText ρ (_ :: concat _ _)) = _
    rw [renameText, renameText_concat]
    rfl

@[simp] theorem renameText_clause : renameText ρ ((listed keyword l).getD []) =
    (listed keyword (l.map (renameText ρ))).getD [] := by
  rw [← renameText_listed]
  cases listed keyword l <;> rfl

@[simp] theorem renameText_number (n : Option ℤ) :
    renameText ρ (number keyword n) = number keyword n := by
  cases n <;> rfl

end RenameText

/-! ### Rendering commutes with renaming -/

section Commutes

variable {ρ : ℕ → ℕ}

/-- An injective renaming keeps what a scope stands for. -/
theorem lookup_rename (hρ : Function.Injective ρ) (l : List (ℕ × String)) (scope : ℕ) :
    (l.map fun a => (ρ a.1, a.2)).lookup (ρ scope) = l.lookup scope := by
  induction l with
  | nil => rfl
  | cons a rest ih =>
    obtain ⟨s, a⟩ := a
    have he : (ρ scope == ρ s) = (scope == s) := by
      rw [Bool.eq_iff_iff, beq_iff_eq, beq_iff_eq, hρ.eq_iff]
    rw [List.map_cons, List.lookup_cons, List.lookup_cons, he, ih]

theorem Context.rename_cons (c : Context) (scope : ℕ) (a : String) :
    { c.rename ρ with aliases := (ρ scope, a) :: (c.rename ρ).aliases } =
      ({ c with aliases := (scope, a) :: c.aliases } : Context).rename ρ := rfl

/-- The context of a select's clauses. -/
theorem Context.rename_select (c : Context) (scope : ℕ) (first : String) (joins : List Join)
    (aliases : List String) :
    { c.rename ρ with
      aliases := (ρ scope, first) :: (((renameJoins ρ joins).map Join.scope).zip aliases ++
        (c.rename ρ).aliases) } =
      ({ c with
        aliases := (scope, first) :: ((joins.map Join.scope).zip aliases ++ c.aliases) } :
          Context).rename ρ := by
  have hz : ((renameJoins ρ joins).map Join.scope).zip aliases =
      ((joins.map Join.scope).zip aliases).map fun a => (ρ a.1, a.2) := by
    induction joins generalizing aliases with
    | nil => rfl
    | cons j rest ih =>
      obtain ⟨kind, target, scope, on⟩ := j
      cases aliases with
      | nil => rfl
      | cons a aliases => exact congrArg ((ρ scope, a) :: ·) (ih aliases)
  simp only [Context.rename, hz, List.map_cons, List.map_append]

theorem freshAliases_rename (joins : List Join) :
    freshAliases (renameJoins ρ joins) = freshAliases joins := by
  induction joins with
  | nil => rfl
  | cons j rest ih =>
    obtain ⟨kind, target, scope, on⟩ := j
    simp only [renameJoins, freshAliases, ih]

mutual

/-- **Rendering commutes with renaming**: the renamed expression fails alike, or has the text of
the expression. -/
theorem render_rename (hρ : Function.Injective ρ) (c : Context) (a : Node) :
    render (c.rename ρ) (a.rename ρ) = renameText ρ <$> render c a := by
  match a with
  | .column scope name =>
    simp only [Node.rename, render, Context.rename, lookup_rename hρ]
    cases c.aliases.lookup scope <;> rfl
  | .param scope index sqlType =>
    have he : c.params.map ρ ≠ some (ρ scope) ↔ c.params ≠ some scope := by
      rw [← Option.map_some, (Option.map_injective hρ).ne_iff]
    simp only [Node.rename, render, Context.rename, he]
    split <;> rfl
  | .literal _ _ => rfl
  | .apply _ args =>
    simp only [Node.rename, render, renderAll_rename hρ c args, bind_map_left, map_bind, map_pure,
      renameText, renameText_append, renameText_concat, Fragment.rename, List.cons_append]
  | .infixOp _ a b =>
    simp only [Node.rename, render, render_rename hρ c a, render_rename hρ c b, bind_map_left, map_bind,
      map_pure, renameText, renameText_append, Fragment.rename, List.cons_append]
  | .prefixOp _ a | .postfixOp a _ | .cast a _ =>
    simp only [Node.rename, render, render_rename hρ c a, bind_map_left, map_bind, map_pure,
      renameText, renameText_append, Fragment.rename, List.cons_append]
  | .countStar => rfl
  | .existsIn s | .scalar s =>
    simp only [Node.rename, render, renderSource_rename hρ c s, bind_map_left, map_bind, map_pure,
      renameText, renameText_append, Fragment.rename, List.cons_append]
  | .inSubquery a s =>
    simp only [Node.rename, render, render_rename hρ c a, renderSource_rename hρ c s, bind_map_left,
      map_bind, map_pure, renameText, renameText_append, Fragment.rename, List.cons_append]
  | .over f ⟨partition, order, frame⟩ =>
    simp only [Node.rename, render, render_rename hρ c f, renderAll_rename hρ c partition,
      renderOrders_rename hρ c order, bind_map_left, map_bind, map_pure, renameText,
      renameText_append, renameText_concat, Fragment.rename,
      ← List.reduceOption_map, List.map_cons, List.map_nil, renameText_listed]
    cases frame <;> rfl

theorem renderAll_rename (hρ : Function.Injective ρ) (c : Context) (l : List Node) :
    renderAll (c.rename ρ) (renameNodes ρ l) = List.map (renameText ρ) <$> renderAll c l := by
  match l with
  | [] => rfl
  | a :: rest =>
    simp only [renameNodes, renderAll, render_rename hρ c a, renderAll_rename hρ c rest, bind_map_left,
      map_bind, map_pure, List.map_cons]

theorem renderOrders_rename (hρ : Function.Injective ρ) (c : Context) (l : List Order) :
    renderOrders (c.rename ρ) (renameOrders ρ l) =
      List.map (renameText ρ) <$> renderOrders c l := by
  match l with
  | [] => rfl
  | ⟨key, descending⟩ :: rest =>
    simp only [renameOrders, renderOrders, render_rename hρ c key, renderOrders_rename hρ c rest,
      bind_map_left, map_bind, map_pure, List.map_cons, renameText_append, renameText,
      Fragment.rename]

theorem renderClause_rename (hρ : Function.Injective ρ) (c : Context) (keyword : String)
    (o : Option Node) :
    renderClause (c.rename ρ) keyword (renameClause ρ o) =
      renameText ρ <$> renderClause c keyword o := by
  match o with
  | none => rfl
  | some a =>
    simp only [renameClause, renderClause, render_rename hρ c a, bind_map_left, map_bind, map_pure,
      renameText, Fragment.rename]

theorem renderJoins_rename (hρ : Function.Injective ρ) (c : Context) (joins : List Join)
    (aliases : List String) :
    renderJoins (c.rename ρ) (renameJoins ρ joins) aliases =
      renameText ρ <$> renderJoins c joins aliases := by
  match joins, aliases with
  | [], _ => rfl
  | ⟨_, _, _, _⟩ :: _, [] => rfl
  | ⟨kind, target, scope, on⟩ :: joins, a :: aliases =>
    simp only [renameJoins, renderJoins, renderClause_rename hρ c "ON" on,
      renderJoins_rename hρ c joins aliases, bind_map_left, map_bind, map_pure, renameText,
      renameText_append, Fragment.rename, Occurrence.rename, List.cons_append]

/-- A source is open when its columns' binders and its parameters are the renamed ones. -/
theorem renderSource_rename (hρ : Function.Injective ρ) (c : Context) (s : Source) :
    renderSource (c.rename ρ) (s.rename ρ) = renameText ρ <$> renderSource c s := by
  match s with
  | .select target scope ⟨_, list, distinct, joins, where_, groupBy, having, qualify, orderBy,
      limit, offset⟩ =>
    simp only [Source.rename, renderSource, freshAliases_rename, Context.rename_select,
      renderAll_rename hρ _ list, renderAll_rename hρ _ groupBy, renderJoins_rename hρ _ joins,
      renderClause_rename hρ _ _ where_, renderClause_rename hρ _ _ having,
      renderClause_rename hρ _ _ qualify, renderOrders_rename hρ _ orderBy, bind_map_left, map_bind,
      map_pure, renameText, renameText_append, renameText_concat, renameText_clause,
      renameText_number, Fragment.rename, Occurrence.rename, List.cons_append]
  | .set _ left right =>
    simp only [Source.rename, renderSource, renderSource_rename hρ c left,
      renderSource_rename hρ c right, bind_map_left, map_bind, map_pure, renameText,
      renameText_append, Fragment.rename, List.cons_append]

end

/-! ### Statements -/

theorem renderAssigned_rename (hρ : Function.Injective ρ) (c : Context) (l : List Assignment) :
    renderAssigned (c.rename ρ) (l.map (.rename ρ)) =
      List.map (renameText ρ) <$> renderAssigned c l := by
  induction l with
  | nil => rfl
  | cons a rest ih =>
    simp only [List.map_cons, Assignment.rename, renderAssigned, render_rename hρ c a.value, ih,
      bind_map_left, map_bind, map_pure, renameText, Fragment.rename]

theorem renderReturning_rename (hρ : Function.Injective ρ) (c : Context) (r : Result) :
    renderReturning (c.rename ρ) (r.rename ρ) = renameText ρ <$> renderReturning c r := by
  cases r with
  | count => rfl
  | returning columns list =>
    simp only [Result.rename, renderReturning, renderAll_rename hρ c list, bind_map_left,
      map_bind, map_pure, renameText, renameText_concat, Fragment.rename]

theorem insertAlias_rename (o : Option ResolvedConflict) :
    insertAlias (o.map (.rename ρ)) = insertAlias o := by
  cases o <;> rfl

theorem renderConflict_rename (hρ : Function.Injective ρ) (c : Context) (t : Occurrence)
    (o : Option ResolvedConflict) :
    renderConflict (c.rename ρ) (t.rename ρ) (o.map (.rename ρ)) =
      List.map (.rename ρ) <$> renderConflict c t o := by
  match o with
  | none => rfl
  | some ⟨names, none⟩ => rfl
  | some ⟨names, some u⟩ =>
    simp only [Option.map_some, ResolvedConflict.rename, ConflictUpdate.rename, renderConflict,
      Context.rename_cons, renderAssigned_rename hρ, renderClause_rename hρ, bind_map_left,
      map_bind, map_pure, List.map_cons, List.map_nil, Region.rename, renameText,
      renameText_concat, Fragment.rename, excludedRow, Occurrence.rename]

theorem renderValues_rename (hρ : Function.Injective ρ) (c : Context) (l : List Assignment) :
    renderValues (c.rename ρ) (l.map (.rename ρ)) = renameText ρ <$> renderValues c l := by
  cases l with
  | nil => rfl
  | cons a rest =>
    have hvalues : ((a :: rest).map (.rename ρ)).map Assignment.value =
        renameNodes ρ ((a :: rest).map Assignment.value) := by
      induction a :: rest with
      | nil => rfl
      | cons b l ih => simp only [List.map_cons, Assignment.rename, renameNodes, ih]
    have hcolumns : ((a :: rest).map (.rename ρ)).map Assignment.column =
        (a :: rest).map Assignment.column := by
      rw [List.map_map]
      rfl
    rw [List.map_cons] at hvalues hcolumns
    rw [List.map_cons, renderValues, hvalues, hcolumns, renderValues]
    simp only [renderAll_rename hρ, bind_map_left, map_bind, map_pure, renameText,
      renameText_append, renameText_concat, Fragment.rename, List.cons_append]

theorem renderInto_rename (hρ : Function.Injective ρ) (c : Context) (columns : List String)
    (s : Source) :
    renderInto (c.rename ρ) columns (s.rename ρ) = renameText ρ <$> renderInto c columns s := by
  simp only [renderInto, renderSource_rename hρ, bind_map_left, map_bind, map_pure, renameText,
    Fragment.rename]

theorem renderInsert_rename (hρ : Function.Injective ρ) (c : Context) (target : String)
    (scope : ℕ) {body body' : Render (List Fragment)} (hbody : body' = renameText ρ <$> body)
    (conflict : Option ResolvedConflict) (result : Result) :
    renderInsert (c.rename ρ) target (ρ scope) body' (conflict.map (.rename ρ))
        (result.rename ρ) =
      List.map (.rename ρ) <$> renderInsert c target scope body conflict result := by
  have hconflict := fun inner a => renderConflict_rename hρ inner ⟨⟨scope, target⟩, a⟩ conflict
  simp only [Occurrence.rename] at hconflict
  simp only [renderInsert, insertAlias_rename, Context.rename_cons, hbody, hconflict,
    renderReturning_rename hρ, bind_map_left, map_bind, map_pure, List.map_cons, List.map_append,
    List.map_nil, List.cons_append, Region.rename, renameText, Fragment.rename, Occurrence.rename]

/-- The statement of renamed parts fails alike, or has the text of the statement. -/
theorem renderStatement_rename (hρ : Function.Injective ρ) (c : Context) (st : Statement) :
    renderStatement (c.rename ρ) (st.rename ρ) =
      List.map (.rename ρ) <$> renderStatement c st := by
  obtain ⟨target, scope, kind, result⟩ := st
  cases kind with
  | updateStatement assignments where_ | deleteStatement where_ =>
    simp only [Statement.rename, StatementKind.rename, renderStatement, Context.rename_cons,
      renderAssigned_rename hρ, renderClause_rename hρ, renderReturning_rename hρ, bind_map_left,
      map_bind, map_pure, List.map_cons, List.map_nil, Region.rename, renameText,
      renameText_concat, Fragment.rename, Occurrence.rename]
  | insertValues assignments conflict =>
    exact renderInsert_rename hρ c target scope (renderValues_rename hρ c assignments) conflict
      result
  | insertSelect columns source conflict =>
    exact renderInsert_rename hρ c target scope (renderInto_rename hρ c columns source) conflict
      result

/-! ### Requests -/

theorem map_run {α β : Type} (f : α → β) (x : Render α) (n : ℕ) :
    (f <$> x) n = (x n).map fun r => (f r.1, r.2) := by
  change Except.bind (x n) _ = _
  cases x n <;> rfl

/-- What is sent to the engine: the codecs of the parameters and of the rows, and the text. -/
def Generated.sent (g : Generated) : List Codec × List Codec × String :=
  (g.params, g.columns, textOf g.sql)

def Command.sent (g : Command) : List Codec × List Codec × String :=
  (g.params, g.columns, regionsText g.sql)

theorem leftmost_rename (s : Source) : (s.rename ρ).leftmost.columns = s.leftmost.columns := by
  match s with
  | .select _ _ ⟨_, _, _, _, _, _, _, _, _, _, _⟩ => rfl
  | .set _ left _ => exact leftmost_rename left

/-- **A query's request does not depend on its scope numbers.** -/
theorem query_rename (hρ : Function.Injective ρ) (params : List Codec) (scope : ℕ)
    (source : Source) :
    (query params (ρ scope) (source.rename ρ)).map Generated.sent =
      (query params scope source).map Generated.sent := by
  have hr := renderSource_rename hρ ⟨[], some scope⟩ source
  simp only [Context.rename, List.map_nil, Option.map_some] at hr
  rw [query, query, hr, map_run, leftmost_rename]
  cases renderSource ⟨[], some scope⟩ source 0 with
  | error e => rfl
  | ok r =>
    change Except.ok (_, _, textOf (renameText ρ r.1)) = _
    rw [textOf_renameText]
    rfl

theorem command_rename (hρ : Function.Injective ρ) (params : List Codec) (scope : ℕ)
    (st : Statement) :
    (command params (ρ scope) (st.rename ρ)).map Command.sent =
      (command params scope st).map Command.sent := by
  have hr := renderStatement_rename hρ ⟨[], some scope⟩ st
  simp only [Context.rename, List.map_nil, Option.map_some] at hr
  rw [command, command, hr, map_run]
  obtain ⟨target, own, kind, result⟩ := st
  cases renderStatement ⟨[], some scope⟩ ⟨target, own, kind, result⟩ 0 with
  | error e => rfl
  | ok r =>
    cases result with
    | count | returning =>
      change Except.ok (_, _, regionsText (r.1.map (.rename ρ))) = _
      rw [regionsText_rename]
      rfl

end Commutes

end DuckdbMl.Sql
