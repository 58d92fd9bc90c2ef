import DuckdbMl.Sql.Scope

/-!
# Typed SQL: write statements

An UPDATE and a DELETE give their target an alias; an INSERT does so only with ON CONFLICT, and
otherwise names the target's columns in RETURNING without a qualifier.

## Main definitions

* `update`, `delete`, `insertValues`, `insertSelect`: a statement, resolved against its table
* `command`: the request of a statement
* `Statement.uses`: the columns and parameters of a statement, and what is visible there
* `Statement.Uncaptured`: no subquery of RETURNING hides the target's columns

## Main results

* `command_scoped`: a statement renders exactly when its columns and parameters are in scope; its
  text denotes what was written exactly when no subquery hides an unqualified column
-/

namespace DuckdbMl.Sql

/-! ### Statements -/

/-- A typed expression: a node and its codec. -/
structure Expr where
  node : Node
  codec : Codec

structure Assignment where
  scope : ℕ
  column : String
  value : Node

/-- The affected-row count, or the rows of RETURNING. -/
inductive Result
  | count
  | returning (columns : List Codec) (list : List Node)

/-- What a conflict does; an update sees the row that was to be inserted. -/
inductive Action
  | nothing
  | update (where_ : Option Node) (assignments : List Expr → Except Exn (List Assignment))

structure Conflict where
  key : List Node
  action : Action

/-- The assignments of a conflict's update, with the scope of the excluded row. -/
structure ConflictUpdate where
  excluded : ℕ
  assignments : List Assignment
  where_ : Option Node

structure ResolvedConflict where
  names : List String
  update : Option ConflictUpdate

inductive StatementKind
  | updateStatement (assignments : List Assignment) (where_ : Option Node)
  | deleteStatement (where_ : Option Node)
  | insertValues (assignments : List Assignment) (conflict : Option ResolvedConflict)
  | insertSelect (columns : List String) (source : Source) (conflict : Option ResolvedConflict)

/-- A statement, resolved against its table. -/
structure Statement where
  target : String
  scope : ℕ
  kind : StatementKind
  result : Result

/-! ### Building -/

def invalidArg {α : Type} (message : String) : Except Exn α := .error (.invalidArgument message)

def ownColumn (scope : ℕ) : Node → Except Exn String
  | .column s name =>
    if s = scope then .ok name else invalidArg "Duckdb.Sql: a column of another table"
  | _ => invalidArg "Duckdb.Sql: a column of another table"

def ownAssignments (scope : ℕ) (assignments : List Assignment) :
    Except Exn (List Assignment) := do
  let names ← assignments.mapM fun a =>
    if a.scope ≠ scope then
      invalidArg "Duckdb.Sql: an assignment to a column of another table"
    else .ok a.column
  if ¬ names.Nodup then invalidArg "Duckdb.Sql: a column assigned twice" else .ok assignments

def declaredKeys (t : TableDef) : List (List String) :=
  t.constraints.filterMap fun
    | .primaryKey names | .unique names => some names
    | _ => none

/-- The columns of a table, bound in a scope. -/
def binders (columns : List (String × Codec)) (scope : ℕ) : List Expr :=
  columns.map fun c => ⟨.column scope c.1, c.2⟩

/-- The conflict of an INSERT: its key is a declared one in some order; its update sees the
excluded row in a scope of its own. -/
def resolveConflict (t : TableDef) (scope excluded : ℕ) (c : Conflict) :
    Except Exn ResolvedConflict := do
  let names ← c.key.mapM (ownColumn scope)
  if ¬ (declaredKeys t).any (·.isPerm names) then
    invalidArg ("Duckdb.Sql: the conflict key must be the declared primary key or a declared " ++
      "unique key")
  else match c.action with
    | .nothing => return ⟨names, none⟩
    | .update where_ f =>
      let assignments ← ownAssignments scope (← f (binders t.columns excluded))
      return ⟨names, some ⟨excluded, assignments, where_⟩⟩

/-- An UPDATE whose callback, given the table bound in `scope`, set the assignments. -/
def update (t : TableDef) (scope : ℕ) (assignments : List Assignment) (where_ : Option Node)
    (result : Result) : Except Exn Statement := do
  let assignments ← ownAssignments scope assignments
  return ⟨targetOf t, scope, .updateStatement assignments where_, result⟩

def delete (t : TableDef) (scope : ℕ) (where_ : Option Node) (result : Result) : Statement :=
  ⟨targetOf t, scope, .deleteStatement where_, result⟩

/-- An INSERT of values; `excluded` is the scope of the row that was to be inserted. -/
def insertValues (t : TableDef) (scope excluded : ℕ) (assignments : List Assignment)
    (conflict : Option Conflict) (result : Result) : Except Exn Statement := do
  let conflict ← conflict.mapM (resolveConflict t scope excluded)
  let assignments ← ownAssignments scope assignments
  return ⟨targetOf t, scope, .insertValues assignments conflict, result⟩

/-- An INSERT from a source. -/
def insertSelect (t : TableDef) (scope excluded : ℕ) (columns : List Node) (source : Source)
    (conflict : Option Conflict) (result : Result) : Except Exn Statement := do
  let names ← columns.mapM (ownColumn scope)
  if ¬ names.Nodup then invalidArg "Duckdb.Sql: a column assigned twice"
  else
    let conflict ← conflict.mapM (resolveConflict t scope excluded)
    return ⟨targetOf t, scope, .insertSelect names source conflict, result⟩

/-! ### Rendering -/

/-- A part of a statement's text, and the tables in scope there. -/
structure Region where
  levels : List (List Occurrence)
  pieces : List Fragment

/-- The text of a statement. -/
def regionsText : List Region → String
  | [] => ""
  | g :: rest => textOf g.pieces ++ regionsText rest

def regionsReferences (l : List Region) : List Reference :=
  l.flatMap fun g => references g.levels g.pieces

def renderAssigned (c : Context) : List Assignment → Render (List (List Fragment))
  | [] => pure []
  | a :: rest => do
    let value ← render c a.value
    let rest ← renderAssigned c rest
    return (.raw (quote a.column ++ " = ") :: value) :: rest

def quoted (names : List String) : String :=
  "(" ++ String.intercalate ", " (names.map quote) ++ ")"

def renderReturning (c : Context) : Result → Render (List Fragment)
  | .count => pure []
  | .returning _ list => do
    let list ← renderAll c list
    return .raw " RETURNING " :: concat ", " list

/-- The row that was to be inserted, in ON CONFLICT DO UPDATE. -/
def excludedRow (target : String) (scope : ℕ) : Occurrence := ⟨⟨scope, target⟩, some "excluded"⟩

/-- The ON CONFLICT clause; `inner` is the context of the target `t`. -/
def renderConflict (inner : Context) (t : Occurrence) :
    Option ResolvedConflict → Render (List Region)
  | none => pure []
  | some ⟨names, none⟩ => pure [⟨[], [.raw (" ON CONFLICT " ++ quoted names ++ " DO NOTHING")]⟩]
  | some ⟨names, some u⟩ => do
    let inner := { inner with aliases := (u.excluded, "excluded") :: inner.aliases }
    let levels := [[excludedRow t.target u.excluded, t]]
    let set ← renderAssigned inner u.assignments
    let where_ ← renderClause inner "WHERE" u.where_
    return [⟨[], [.raw (" ON CONFLICT " ++ quoted names ++ " DO UPDATE SET ")]⟩,
      ⟨levels, concat ", " set⟩, ⟨levels, where_⟩]

/-- The alias of an INSERT resolves in RETURNING only with ON CONFLICT; without one the target's
columns have no qualifier. -/
def insertAlias : Option ResolvedConflict → Render (Option String)
  | some _ => do
    let a ← freshAlias
    return some a
  | none => pure none

def renderValues (c : Context) : List Assignment → Render (List Fragment)
  | [] => pure [.raw " DEFAULT VALUES"]
  | a :: rest => do
    let values ← renderAll c ((a :: rest).map (·.value))
    return .raw (" " ++ quoted ((a :: rest).map (·.column)) ++ " VALUES (") ::
      concat ", " values ++ [.raw ")"]

def renderInto (c : Context) (columns : List String) (source : Source) :
    Render (List Fragment) := do
  let source ← renderSource c source
  return .raw (" " ++ quoted columns ++ " ") :: source

/-- The text of an INSERT around its `body`. -/
def renderInsert (c : Context) (target : String) (scope : ℕ) (body : Render (List Fragment))
    (conflict : Option ResolvedConflict) (result : Result) : Render (List Region) := do
  let a ← insertAlias conflict
  let t : Occurrence := ⟨⟨scope, target⟩, a⟩
  let inner := { c with aliases := (scope, a.getD "") :: c.aliases }
  let body ← body
  let onConflict ← renderConflict inner t conflict
  let returning ← renderReturning inner result
  return ⟨[], [.raw "INSERT INTO ", .table t]⟩ :: ⟨[], body⟩ :: onConflict ++
    [⟨[[t]], returning⟩]

/-- The text of a statement. The values and the source of an INSERT see no target row. -/
def renderStatement (c : Context) (st : Statement) : Render (List Region) :=
  match st.kind with
  | .updateStatement assignments where_ => do
    let a ← freshAlias
    let inner := { c with aliases := (st.scope, a) :: c.aliases }
    let t : Occurrence := ⟨⟨st.scope, st.target⟩, some a⟩
    let set ← renderAssigned inner assignments
    let where_ ← renderClause inner "WHERE" where_
    let returning ← renderReturning inner st.result
    return [⟨[], [.raw "UPDATE ", .table t, .raw " SET "]⟩, ⟨[[t]], concat ", " set⟩,
      ⟨[[t]], where_⟩, ⟨[[t]], returning⟩]
  | .deleteStatement where_ => do
    let a ← freshAlias
    let inner := { c with aliases := (st.scope, a) :: c.aliases }
    let t : Occurrence := ⟨⟨st.scope, st.target⟩, some a⟩
    let where_ ← renderClause inner "WHERE" where_
    let returning ← renderReturning inner st.result
    return [⟨[], [.raw "DELETE FROM ", .table t]⟩, ⟨[[t]], where_⟩, ⟨[[t]], returning⟩]
  | .insertValues assignments conflict =>
    renderInsert c st.target st.scope (renderValues c assignments) conflict st.result
  | .insertSelect columns source conflict =>
    renderInsert c st.target st.scope (renderInto c columns source) conflict st.result

/-- A write request. -/
structure Command where
  params : List Codec
  columns : List Codec
  sql : List Region

/-- The request of a statement, whose callback had the parameters bound in `scope`. -/
def command (params : List Codec) (scope : ℕ) (st : Statement) : Except Exn Command := do
  let (sql, _) ← renderStatement ⟨[], some scope⟩ st 0
  match st.result with
  | .count => return ⟨params, [.nonNull (.identity .int64)], sql⟩
  | .returning columns _ => return ⟨params, columns, sql⟩

/-! ### Uses -/

def Statement.table (st : Statement) : Table := ⟨st.scope, st.target⟩

def Result.uses (visible : List Table) : Result → List Place
  | .count => []
  | .returning _ list => nodesUses visible list

def ResolvedConflict.uses (target : Table) : Option ResolvedConflict → List Place
  | some ⟨_, some u⟩ =>
    let visible := [⟨u.excluded, target.target⟩, target]
    nodesUses visible (u.assignments.map (·.value)) ++ clauseUses visible u.where_
  | _ => []

/-- The columns and parameters of a statement. The values and the source of an INSERT have no
table in scope. -/
def Statement.uses (st : Statement) : List Place :=
  (match st.kind with
  | .updateStatement assignments where_ =>
    nodesUses [st.table] (assignments.map (·.value)) ++ clauseUses [st.table] where_
  | .deleteStatement where_ => clauseUses [st.table] where_
  | .insertValues assignments conflict =>
    nodesUses [] (assignments.map (·.value)) ++ ResolvedConflict.uses st.table conflict
  | .insertSelect _ source conflict => source.uses [] ++ ResolvedConflict.uses st.table conflict) ++
  st.result.uses [st.table]

/-- An INSERT without ON CONFLICT, which renders its target's columns without a qualifier. -/
def Statement.unqualified (st : Statement) : Bool :=
  match st.kind with
  | .insertValues _ none | .insertSelect _ _ none => true
  | _ => false

/-- **No subquery hides the target.** In the RETURNING list of an INSERT without ON CONFLICT, a
column of the target is one that the table has, and no table of the subqueries around it has a
column of that name. -/
def Statement.Uncaptured (columns : String → List String) (st : Statement) : Prop :=
  st.unqualified → ∀ p ∈ st.result.uses [st.table], ∀ name, p.use = .column st.scope name →
    st.scope ∉ p.visible.dropLast.map Table.scope →
      name ∈ columns st.target ∧ ∀ t ∈ p.visible.dropLast, name ∉ columns t.target

/-! ### What a statement emits -/

/-- **What regions consist of**: the columns at the places `uses`, all in scope, each denoting
the table that bound it. -/
structure Covered (params : Option ℕ) (uses : List Place) (l : List Region) : Prop where
  inScope : ∀ p ∈ uses, p.InScope params
  places : (regionsReferences l).map Reference.place = columnPlaces uses
  denotes : ∀ columns, ∀ r ∈ regionsReferences l, r.Denotes columns

section Covered

variable {params : Option ℕ} {uses uses' : List Place} {l l' : List Region}

theorem Covered.nil : Covered params [] [] where
  inScope := by simp
  places := rfl
  denotes := by simp [regionsReferences]

theorem Covered.append (h : Covered params uses l) (h' : Covered params uses' l') :
    Covered params (uses ++ uses') (l ++ l') where
  inScope := List.forall_mem_append.mpr ⟨h.inScope, h'.inScope⟩
  places := by
    rw [regionsReferences, List.flatMap_append, List.map_append, columnPlaces,
      List.filter_append]
    exact congrArg₂ _ h.places h'.places
  denotes columns := by
    rw [regionsReferences, List.flatMap_append]
    exact List.forall_mem_append.mpr ⟨h.denotes columns, h'.denotes columns⟩

theorem Emits.covered {levels : List (List Occurrence)} {own : List Occurrence} {n m : ℕ}
    {ps : List Fragment} (h : Emits params levels uses own n m ps)
    (ha : ∀ t ∈ levels.flatten, t.aliasName.isSome) : Covered params uses [⟨levels, ps⟩] where
  inScope := h.2.inScope
  places := by simpa [regionsReferences] using h.2.places
  denotes columns r hr :=
    h.2.denotes (by simpa [regionsReferences] using hr) (fun t ht _ => ha t ht) columns

/-- Text before any column. -/
theorem Covered.plain {ps : List Fragment} (hp : references [] ps = [])
    (h : Covered params uses l) : Covered params uses (⟨[], ps⟩ :: l) where
  inScope := h.inScope
  places := by simpa [regionsReferences, hp] using h.places
  denotes := by simpa [regionsReferences, hp] using h.denotes

end Covered

section Contexts

variable {c : Context} {n m : ℕ} {params : Option ℕ}

/-- The context of an aliased target. -/
theorem fits_target (t : Table) (n : ℕ) :
    Fits ⟨[(t.scope, aliasOf n)], params⟩ [[⟨t, some (aliasOf n)⟩]] (n + 1) :=
  (fits_empty params n).select t []

/-- The context of a target without an alias. -/
theorem fits_unaliased (t : Table) (n : ℕ) :
    Fits ⟨[(t.scope, "")], params⟩ [[⟨t, none⟩]] n where
  aliases := rfl
  nodup := List.nodup_singleton _
  named := by simp

theorem excluded_ne_aliasOf (k : ℕ) : "excluded" ≠ aliasOf k := by
  intro h
  have := congrArg (·.toList.head?) h
  simp [aliasOf] at this

/-- The context of a conflict's update. -/
theorem Fits.conflict {t : Occurrence} {k : ℕ} (h : Fits c [[t]] n)
    (ht : t.aliasName = some (aliasOf k)) (scope : ℕ) :
    Fits { c with aliases := (scope, "excluded") :: c.aliases } [[excludedRow t.target scope, t]]
      n where
  aliases := by
    rw [h.aliases]
    rfl
  nodup := by simp [excludedRow, ht, excluded_ne_aliasOf]
  named u hu a ha := by
    simp only [List.flatten_cons, List.flatten_nil, List.append_nil, List.mem_cons,
      List.not_mem_nil, or_false] at hu
    rcases hu with rfl | rfl
    · obtain rfl : "excluded" = a := Option.some.inj ha
      exact ⟨by decide, fun i _ => excluded_ne_aliasOf i⟩
    · exact h.named u (by simp) a ha

end Contexts

section Emits

variable {c : Context} {levels : List (List Occurrence)} {n m : ℕ}

theorem emits_of_renderAssigned {l : List (List Fragment)} {as : List Assignment}
    (hf : Fits c levels n) (h : renderAssigned c as n = .ok (l, m)) :
    Emits c.params levels (nodesUses (visible levels) (as.map (·.value))) [] n m l.flatten := by
  induction as generalizing n l with
  | nil =>
    obtain ⟨rfl, rfl⟩ := pure_eq_ok.mp h
    exact .nil
  | cons a rest ih =>
    simp only [renderAssigned, bind_eq_ok, pure_eq_ok] at h
    obtain ⟨value, k, ha, rest', k', hr, rfl, rfl⟩ := h
    have ha := emits_of_render hf ha
    exact ha.raw.append (ih (hf.mono ha.1) hr)

theorem emits_of_renderReturning {ps : List Fragment} {result : Result} (hf : Fits c levels n)
    (h : renderReturning c result n = .ok (ps, m)) :
    Emits c.params levels (result.uses (visible levels)) [] n m ps := by
  cases result with
  | count =>
    obtain ⟨rfl, rfl⟩ := pure_eq_ok.mp h
    exact .nil
  | returning columns list =>
    simp only [renderReturning, bind_eq_ok, pure_eq_ok] at h
    obtain ⟨list', k, hl, rfl, rfl⟩ := h
    exact (emits_of_renderAll hf hl).concat.raw

end Emits

section Statement

variable {params : Option ℕ} {n m : ℕ} {l : List Region}

/-- The ON CONFLICT clause sees its target and the excluded row. -/
theorem covered_of_renderConflict {c : Context} {t : Occurrence} {k : ℕ}
    {conflict : Option ResolvedConflict} (hf : Fits c [[t]] n)
    (ht : conflict.isSome → t.aliasName = some (aliasOf k))
    (h : renderConflict c t conflict n = .ok (l, m)) :
    n ≤ m ∧ Covered c.params (ResolvedConflict.uses t.toTable conflict) l := by
  match conflict with
  | none =>
    obtain ⟨rfl, rfl⟩ := pure_eq_ok.mp h
    exact ⟨le_rfl, .nil⟩
  | some ⟨names, none⟩ =>
    obtain ⟨rfl, rfl⟩ := pure_eq_ok.mp h
    exact ⟨le_rfl, Covered.nil.plain rfl⟩
  | some ⟨names, some u⟩ =>
    simp only [renderConflict, bind_eq_ok, pure_eq_ok] at h
    obtain ⟨set, k', hs, where', k'', hw, rfl, rfl⟩ := h
    have hf' := hf.conflict (ht rfl) u.excluded
    have hs := emits_of_renderAssigned hf' hs
    have hw := emits_of_renderClause (hf'.mono hs.1) hw
    have ha : ∀ v ∈ [[excludedRow t.target u.excluded, t]].flatten, v.aliasName.isSome := by
      simp [excludedRow, ht rfl]
    exact ⟨hs.1.trans hw.1, ((hs.concat.covered ha).append (hw.covered ha)).plain rfl⟩

/-- The text of an INSERT: its RETURNING list comes last, and sees the target alone. -/
theorem covered_of_renderInsert {target : String} {scope : ℕ} {body : Render (List Fragment)}
    {conflict : Option ResolvedConflict} {result : Result} {uses : List Place}
    (hbody : ∀ n ps m, body n = .ok (ps, m) → Emits params [] uses [] n m ps)
    (h : renderInsert ⟨[], params⟩ target scope body conflict result n = .ok (l, m)) :
    ∃ t : Occurrence, t.toTable = ⟨scope, target⟩ ∧ (t.aliasName = none ↔ conflict = none) ∧
      ∃ pre ps k, l = pre ++ [⟨[[t]], ps⟩] ∧
        Covered params (uses ++ ResolvedConflict.uses ⟨scope, target⟩ conflict) pre ∧
        Emits params [[t]] (result.uses [⟨scope, target⟩]) [] k m ps := by
  simp only [renderInsert, bind_eq_ok, pure_eq_ok] at h
  obtain ⟨a, k₁, ha, body', k₂, hb, onConflict, k₃, hc, returning, k₄, hr, rfl, rfl⟩ := h
  have hb := hbody _ _ _ hb
  -- the target's alias, and the context that it makes
  have hfits : Fits ⟨(scope, a.getD "") :: [], params⟩ [[⟨⟨scope, target⟩, a⟩]] k₁ ∧
      (conflict.isSome → a = some (aliasOf n)) ∧ (a = none ↔ conflict = none) := by
    cases conflict with
    | none =>
      obtain ⟨rfl, rfl⟩ := pure_eq_ok.mp ha
      exact ⟨fits_unaliased ⟨scope, target⟩ n, by simp, by simp⟩
    | some c =>
      simp only [insertAlias, bind_eq_ok, freshAlias_eq_ok, pure_eq_ok] at ha
      obtain ⟨_, _, ⟨rfl, rfl⟩, rfl, rfl⟩ := ha
      exact ⟨fits_target ⟨scope, target⟩ n, fun _ => rfl, by simp⟩
  obtain ⟨hf, hn, hnone⟩ := hfits
  have hc := covered_of_renderConflict (hf.mono hb.1) hn hc
  have hr := emits_of_renderReturning (hf.mono (hb.1.trans hc.1)) hr
  refine ⟨⟨⟨scope, target⟩, a⟩, rfl, hnone, ⟨[], [.raw "INSERT INTO ", .table ⟨⟨scope, target⟩, a⟩]⟩
    :: ⟨[], body'⟩ :: onConflict, returning, k₃, by simp, ?_, hr⟩
  exact ((hb.covered (by simp)).append hc.2).plain rfl

theorem emits_of_insertBody {assignments : List Assignment} {ps : List Fragment}
    (h : renderValues ⟨[], params⟩ assignments n = .ok (ps, m)) :
    Emits params [] (nodesUses [] (assignments.map (·.value))) [] n m ps := by
  cases assignments with
  | nil =>
    obtain ⟨rfl, rfl⟩ := pure_eq_ok.mp h
    exact Emits.nil.raw
  | cons a rest =>
    simp only [renderValues, bind_eq_ok, pure_eq_ok] at h
    obtain ⟨values, k, hv, rfl, rfl⟩ := h
    exact (emits_of_renderAll (fits_empty params n) hv).concat.raw.suffix

theorem emits_of_insertSource {columns : List String} {source : Source} {ps : List Fragment}
    (h : renderInto ⟨[], params⟩ columns source n = .ok (ps, m)) :
    Emits params [] (source.uses []) [] n m ps := by
  simp only [renderInto, bind_eq_ok, pure_eq_ok] at h
  obtain ⟨source', k, hs, rfl, rfl⟩ := h
  exact (emits_of_renderSource (fits_empty params n) hs).raw

/-- **The text of a statement**: what comes before RETURNING denotes what was written, and the
RETURNING list sees the target alone, which has no alias exactly when its columns are rendered
without a qualifier. -/
theorem covered_of_renderStatement {st : Statement}
    (h : renderStatement ⟨[], params⟩ st n = .ok (l, m)) :
    ∃ t : Occurrence, t.toTable = st.table ∧ (t.aliasName = none ↔ st.unqualified = true) ∧
      ∃ pre ps k uses, l = pre ++ [⟨[[t]], ps⟩] ∧ st.uses = uses ++ st.result.uses [st.table] ∧
        Covered params uses pre ∧ Emits params [[t]] (st.result.uses [st.table]) [] k m ps := by
  obtain ⟨target, scope, kind, result⟩ := st
  cases kind with
  -- the target has an alias, which all clauses use
  | updateStatement assignments where_ =>
    simp only [renderStatement, bind_eq_ok, pure_eq_ok, freshAlias_eq_ok] at h
    obtain ⟨_, _, ⟨rfl, rfl⟩, set, k₁, hs, where', k₂, hw, returning, k₃, hr, rfl, rfl⟩ := h
    have hf : Fits ⟨[(scope, aliasOf n)], params⟩ _ _ := fits_target ⟨scope, target⟩ n
    have hs := emits_of_renderAssigned hf hs
    have hw := emits_of_renderClause (hf.mono hs.1) hw
    have hr := emits_of_renderReturning (hf.mono (hs.1.trans hw.1)) hr
    refine ⟨⟨⟨scope, target⟩, some (aliasOf n)⟩, rfl, by simp [Statement.unqualified],
      [⟨[], [.raw "UPDATE ", .table ⟨⟨scope, target⟩, some (aliasOf n)⟩, .raw " SET "]⟩,
        ⟨_, concat ", " set⟩, ⟨_, where'⟩], returning, k₂, _, rfl, rfl, ?_, hr⟩
    exact ((hs.concat.covered (by simp)).append (hw.covered (by simp))).plain rfl
  | deleteStatement where_ =>
    simp only [renderStatement, bind_eq_ok, pure_eq_ok, freshAlias_eq_ok] at h
    obtain ⟨_, _, ⟨rfl, rfl⟩, where', k₂, hw, returning, k₃, hr, rfl, rfl⟩ := h
    have hf : Fits ⟨[(scope, aliasOf n)], params⟩ _ _ := fits_target ⟨scope, target⟩ n
    have hw := emits_of_renderClause hf hw
    have hr := emits_of_renderReturning (hf.mono hw.1) hr
    refine ⟨⟨⟨scope, target⟩, some (aliasOf n)⟩, rfl, by simp [Statement.unqualified],
      [⟨[], [.raw "DELETE FROM ", .table ⟨⟨scope, target⟩, some (aliasOf n)⟩]⟩, ⟨_, where'⟩],
      returning, k₂, _, rfl, rfl, ?_, hr⟩
    exact (hw.covered (by simp)).plain rfl
  -- the target of an INSERT has an alias only with an ON CONFLICT
  | insertValues assignments conflict =>
    obtain ⟨t, ht, hn, pre, ps, k, hl, hp, hr⟩ :=
      covered_of_renderInsert (fun _ _ _ h => emits_of_insertBody h) h
    refine ⟨t, ht, hn.trans ?_, pre, ps, k, _, hl, rfl, hp, hr⟩
    cases conflict <;> simp [Statement.unqualified]
  | insertSelect columns source conflict =>
    obtain ⟨t, ht, hn, pre, ps, k, hl, hp, hr⟩ :=
      covered_of_renderInsert (fun _ _ _ h => emits_of_insertSource h) h
    refine ⟨t, ht, hn.trans ?_, pre, ps, k, _, hl, rfl, hp, hr⟩
    cases conflict <;> simp [Statement.unqualified]

end Statement

/-! ### A statement in scope renders -/

section Renders

variable {c : Context} {tables : List Table}

theorem renders_renderAssigned {as : List Assignment} (hc : c.Names tables)
    (h : ∀ p ∈ nodesUses tables (as.map (·.value)), p.InScope c.params) :
    Renders (renderAssigned c as) := by
  induction as with
  | nil => exact .pure
  | cons a rest ih =>
    obtain ⟨ha, hr⟩ := List.forall_mem_append.mp h
    exact (renders_render hc ha).bind fun _ => (ih hr).bind fun _ => .pure

theorem renders_renderReturning {result : Result} (hc : c.Names tables)
    (h : ∀ p ∈ result.uses tables, p.InScope c.params) : Renders (renderReturning c result) := by
  cases result with
  | count => exact .pure
  | returning columns list => exact (renders_renderAll hc h).bind fun _ => .pure

theorem renders_renderConflict {t : Occurrence} {conflict : Option ResolvedConflict}
    (hc : c.Names [t.toTable])
    (h : ∀ p ∈ ResolvedConflict.uses t.toTable conflict, p.InScope c.params) :
    Renders (renderConflict c t conflict) := by
  match conflict with
  | none => exact .pure
  | some ⟨names, none⟩ => exact .pure
  | some ⟨names, some u⟩ =>
    obtain ⟨ha, hw⟩ := List.forall_mem_append.mp h
    have hc' : ({ c with aliases := (u.excluded, "excluded") :: c.aliases } : Context).Names
        [⟨u.excluded, t.target⟩, t.toTable] := congrArg (u.excluded :: ·) hc
    exact (renders_renderAssigned hc' ha).bind fun _ =>
      (renders_renderClause "WHERE" hc' hw).bind fun _ => .pure

theorem renders_renderInsert {params : Option ℕ} {target : String} {scope : ℕ}
    {body : Render (List Fragment)} {conflict : Option ResolvedConflict} {result : Result}
    (hb : Renders body)
    (hc : ∀ p ∈ ResolvedConflict.uses ⟨scope, target⟩ conflict, p.InScope params)
    (hr : ∀ p ∈ result.uses [⟨scope, target⟩], p.InScope params) :
    Renders (renderInsert ⟨[], params⟩ target scope body conflict result) := by
  have ha : Renders (insertAlias conflict) := by
    cases conflict with
    | none => exact .pure
    | some c => exact fun n => ⟨_, n + 1, rfl⟩
  have hn : ∀ q : String, (⟨[(scope, q)], params⟩ : Context).Names [⟨scope, target⟩] := fun _ => rfl
  exact ha.bind fun a => hb.bind fun _ =>
    (renders_renderConflict (hn _) hc).bind fun _ =>
      (renders_renderReturning (hn _) hr).bind fun _ => .pure

theorem renders_renderStatement {params : Option ℕ} {st : Statement}
    (h : ∀ p ∈ st.uses, p.InScope params) : Renders (renderStatement ⟨[], params⟩ st) := by
  obtain ⟨target, scope, kind, result⟩ := st
  obtain ⟨h, hr⟩ := List.forall_mem_append.mp h
  -- whatever the alias of the target, it names the target
  have hn : ∀ q : String, (⟨[(scope, q)], params⟩ : Context).Names [⟨scope, target⟩] := fun _ => rfl
  have h₀ : (⟨[], params⟩ : Context).Names [] := rfl
  have fresh : Renders freshAlias := fun n => ⟨_, n + 1, rfl⟩
  cases kind with
  | updateStatement assignments where_ =>
    obtain ⟨ha, hw⟩ := List.forall_mem_append.mp h
    exact fresh.bind fun _ => (renders_renderAssigned (hn _) ha).bind fun _ =>
      (renders_renderClause "WHERE" (hn _) hw).bind fun _ =>
        (renders_renderReturning (hn _) hr).bind fun _ => .pure
  | deleteStatement where_ =>
    exact fresh.bind fun _ => (renders_renderClause "WHERE" (hn _) h).bind fun _ =>
      (renders_renderReturning (hn _) hr).bind fun _ => .pure
  | insertValues assignments conflict =>
    obtain ⟨ha, hc⟩ := List.forall_mem_append.mp h
    refine renders_renderInsert ?_ hc hr
    cases assignments with
    | nil => exact .pure
    | cons a rest => exact (renders_renderAll h₀ ha).bind fun _ => .pure
  | insertSelect columns source conflict =>
    obtain ⟨hs, hc⟩ := List.forall_mem_append.mp h
    exact renders_renderInsert ((renders_renderSource h₀ hs).bind fun _ => .pure) hc hr

end Renders

/-! ### Capture -/

/-- An unqualified column denotes the outermost table exactly when that table has it and no
table further in does. -/
theorem resolve_unqualified {columns : String → List String} {name : String}
    {inner : List (List Occurrence)} {t : Occurrence} (ht : t ∉ inner.flatten) :
    resolve columns none name (inner ++ [[t]]) = some t ↔
      name ∈ columns t.target ∧ ∀ u ∈ inner.flatten, name ∉ columns u.target := by
  have answers : ∀ u : Occurrence, Occurrence.Answers columns none name u ↔
      name ∈ columns u.target := fun _ => Iff.rfl
  induction inner with
  -- no table of this level has the column: the reference goes further out
  | nil =>
    by_cases hn : name ∈ columns t.target <;> simp [resolve, answers, hn]
  | cons level outer ih =>
    obtain ⟨hl, ho⟩ := not_or.mp fun h => ht (List.mem_append.mpr h)
    rw [List.cons_append, resolve]
    cases hf : level.filter (Occurrence.Answers columns none name ·) with
    | nil =>
      have hnone : ∀ u ∈ level, name ∉ columns u.target := fun u hu hn =>
        List.filter_eq_nil_iff.mp hf u hu (decide_eq_true ((answers u).mpr hn))
      exact (ih ho).trans <| and_congr_right fun _ => ⟨fun h => List.forall_mem_append.mpr ⟨hnone, h⟩,
        fun h => (List.forall_mem_append.mp h).2⟩
    -- a table further in has it, and takes it or makes it ambiguous
    | cons u rest =>
      have hu : u ∈ level.filter (Occurrence.Answers columns none name ·) := by simp [hf]
      obtain ⟨hul, hun⟩ := List.mem_filter.mp hu
      have hne : u ≠ t := fun h => hl (h ▸ hul)
      refine ⟨fun h => ?_, fun h => ?_⟩
      · cases rest with
        | nil => exact absurd (Option.some.inj h) hne
        | cons v rest => cases h
      · exact absurd ((answers u).mp (of_decide_eq_true hun))
          (h.2 u (List.mem_append_left _ hul))

/-- **Hygiene of the RETURNING list** of an INSERT without ON CONFLICT: its references denote the
tables that bound them exactly when no subquery hides the target. -/
theorem denotes_iff_uncaptured {columns : String → List String} {st : Statement}
    {params : Option ℕ} {t : Occurrence} {k m : ℕ} {ps : List Fragment} (ht : t.toTable = st.table)
    (hn : t.aliasName = none) (hu : st.unqualified = true)
    (h : Emits params [[t]] (st.result.uses [st.table]) [] k m ps) :
    (∀ r ∈ references [[t]] ps, r.Denotes columns) ↔ st.Uncaptured columns := by
  have hscope : t.scope = st.scope := congrArg Table.scope ht
  have htarget : t.target = st.target := congrArg Table.target ht
  -- the tables around a reference, and when the target is the one that bound it
  have around : ∀ r ∈ references [[t]] ps, ∃ inner, r.levels = inner ++ [[t]] ∧
      t ∉ inner.flatten ∧ r.place.visible.dropLast = inner.flatten.map Occurrence.toTable := by
    intro r hr
    obtain ⟨inner, hl, ho⟩ := levels_of_references hr
    refine ⟨inner, hl, fun hin => ?_, by simp [Reference.place, hl]⟩
    obtain ⟨i, -, hi⟩ := h.2.named t (ho t hin)
    simp [hn] at hi
  constructor
  · intro hd _ p hp name huse hout
    have hcol : p ∈ columnPlaces (st.result.uses [st.table]) :=
      List.mem_filter.mpr ⟨hp, by simp [huse, Use.isColumn]⟩
    rw [← h.2.places] at hcol
    obtain ⟨r, hr, rfl⟩ := List.mem_map.mp hcol
    obtain ⟨inner, hl, hti, hv⟩ := around r hr
    obtain ⟨hrs, rfl⟩ : r.scope = st.scope ∧ r.name = name := by simpa [Reference.place] using huse
    rw [hv] at hout ⊢
    have hbinder : r.binder = some t := by
      rw [Reference.binder, hl, List.flatten_append, List.find?_append, List.find?_eq_none.mpr]
      · simp [hscope, hrs]
      · intro u hu hs
        refine hout ?_
        rw [← hrs, ← show u.scope = r.scope by simpa using hs]
        exact List.mem_map_of_mem (List.mem_map_of_mem hu)
    obtain ⟨t', hb, hq⟩ := (h.2.bound r hr).named
    obtain rfl : t = t' := Option.some.inj (hbinder.symm.trans hb)
    have hres := (hd r hr).2
    rw [hbinder, ← hq, hn, hl] at hres
    obtain ⟨hin, hno⟩ := (resolve_unqualified hti).mp hres
    exact ⟨htarget ▸ hin, List.forall_mem_map.mpr hno⟩
  · intro hc r hr
    by_cases hb : r.binder = some t
    · obtain ⟨inner, hl, hti, hv⟩ := around r hr
      refine ⟨by simp [hb], ?_⟩
      obtain ⟨t', hb', hq⟩ := (h.2.bound r hr).named
      obtain rfl : t = t' := Option.some.inj (hb.symm.trans hb')
      have hrs : st.scope = r.scope := by
        rw [← hscope]
        simpa using List.find?_some hb
      have hp : r.place ∈ st.result.uses [st.table] := by
        have hmem : r.place ∈ columnPlaces (st.result.uses [st.table]) := by
          rw [← h.2.places]
          exact List.mem_map_of_mem hr
        exact (List.mem_filter.mp hmem).1
      have hout : st.scope ∉ r.place.visible.dropLast.map Table.scope := by
        rw [hv, List.map_map]
        intro hin
        obtain ⟨u, hu, hus⟩ := List.mem_map.mp hin
        -- a closer table of that scope would be the binder
        cases hf : inner.flatten.find? (·.scope = r.scope) with
        | none => exact absurd (hus.trans hrs) (by simpa using List.find?_eq_none.mp hf u hu)
        | some v =>
          rw [Reference.binder, hl, List.flatten_append, List.find?_append, hf] at hb
          exact hti (Option.some.inj hb ▸ List.mem_of_find?_eq_some hf)
      have hnames := hc hu r.place hp r.name (by simp [Reference.place, hrs]) hout
      rw [hb, ← hq, hn, hl]
      refine (resolve_unqualified hti).mpr ⟨htarget ▸ hnames.1, fun u hu => ?_⟩
      exact hnames.2 u.toTable (hv ▸ List.mem_map_of_mem hu)
    · exact h.2.denotes hr (fun u hu hbu => by simp_all) columns

/-- **Write statements are hygienic but for one capture.** A statement renders exactly when each
of its columns and parameters is in scope where it occurs: the target is not in scope in the
values and the source of an INSERT. The columns of its text are those of the statement, and all
denote the tables that bound them exactly when no subquery in the RETURNING list of an INSERT
without ON CONFLICT has a table with a column of the same name as a target's column used inside
it. -/
theorem command_scoped (columns : String → List String) (params : List Codec) (scope : ℕ)
    (st : Statement) :
    ((∃ message, command params scope st = .error (.invalidArgument message)) ↔
      ∃ p ∈ st.uses, ¬ p.InScope (some scope)) ∧
    ∀ g, command params scope st = .ok g →
      (regionsReferences g.sql).map Reference.place = columnPlaces st.uses ∧
      ((∀ r ∈ regionsReferences g.sql, r.Denotes columns) ↔ st.Uncaptured columns) := by
  cases h : renderStatement ⟨[], some scope⟩ st 0 with
  | error e =>
    have hq : command params scope st = .error e := by rw [command, h]; rfl
    refine ⟨⟨fun _ => ?_, fun _ => ⟨e.1, hq⟩⟩, fun g hg => ?_⟩
    · by_contra hall
      have hrenders : Renders (renderStatement ⟨[], some scope⟩ st) :=
        renders_renderStatement (by simpa using hall)
      obtain ⟨ps, m, hr⟩ := hrenders 0
      rw [h] at hr
      cases hr
    · rw [hq] at hg
      cases hg
  | ok r =>
    obtain ⟨l, m⟩ := r
    obtain ⟨g', hq, hsql⟩ : ∃ g, command params scope st = .ok g ∧ g.sql = l := by
      rw [command, h]
      cases hres : st.result with
      | count => exact ⟨_, rfl, rfl⟩
      | returning _ _ => exact ⟨_, rfl, rfl⟩
    -- the text is a part without a target, and the returned list, which alone may capture
    obtain ⟨t, ht, hn, pre, ps, k, uses, rfl, huses, hpre, hret⟩ := covered_of_renderStatement h
    have hin : ∀ p ∈ st.uses, p.InScope (some scope) := by
      rw [huses]
      exact List.forall_mem_append.mpr ⟨hpre.inScope, hret.2.inScope⟩
    refine ⟨⟨fun ⟨message, hm⟩ => ?_, fun ⟨p, hp, hnp⟩ => absurd (hin p hp) hnp⟩, fun g hg => ?_⟩
    · rw [hq] at hm
      cases hm
    · obtain rfl := Except.ok.inj (hq.symm.trans hg)
      have hrefs : regionsReferences g'.sql = regionsReferences pre ++ references [[t]] ps := by
        simp [hsql, regionsReferences]
      refine ⟨?_, ?_⟩
      · rw [hrefs, huses, List.map_append, hpre.places, hret.2.places, columnPlaces, columnPlaces,
          columnPlaces, List.filter_append]
      · rw [hrefs, List.forall_mem_append, and_iff_right (hpre.denotes columns)]
        cases hu : st.unqualified with
        | true => exact denotes_iff_uncaptured ht (hn.mpr hu) hu hret
        | false =>
          -- an aliased target captures nothing, so both sides hold
          have hsome : t.aliasName.isSome := by
            rw [Option.isSome_iff_ne_none]
            exact fun h => by simp [hn.mp h] at hu
          exact ⟨fun _ h => absurd h (by simp [hu]), fun _ r hr =>
            hret.2.denotes hr (fun u hu' _ => by simp_all) columns⟩

/-! A table and a subquery's table with a column of one name: the RETURNING list of the INSERT
compares the subquery's column with itself. -/

def accounts : TableDef := ⟨"main", "accounts", [("id", .nonNull (.identity .int64))], []⟩

def entries : TableDef := ⟨"main", "entries", [("id", .nonNull (.identity .int64))], []⟩

/-- `accounts` has the scope 1 and `entries`, in the subquery, the scope 2. -/
def capturing : Except Exn Statement :=
  insertValues accounts 1 3 [⟨1, "id", .literal "CAST(7 AS BIGINT)" none⟩] none
    (.returning [.nonNull (.identity .bool)]
      [.existsIn (.select (targetOf entries) 2 ⟨[.nonNull (.identity .int64)], [.column 2 "id"],
        false, [], some (.infixOp "=" (.column 2 "id") (.column 1 "id")), [], none, none, [],
        none, none⟩)])

theorem command_captured :
    ∃ st g, capturing = .ok st ∧ command [] 0 st = .ok g ∧ regionsText g.sql =
        "INSERT INTO \"main\".\"accounts\" (\"id\") VALUES (CAST(7 AS BIGINT)) RETURNING " ++
          "EXISTS (SELECT t0.\"id\" FROM \"main\".\"entries\" AS t0 WHERE (t0.\"id\" = \"id\"))" ∧
      ∃ r ∈ regionsReferences g.sql, r.binder = some ⟨⟨1, targetOf accounts⟩, none⟩ ∧
        resolve (fun _ => ["id"]) r.qualifier r.name r.levels =
          some ⟨⟨2, targetOf entries⟩, some "t0"⟩ := by
  refine ⟨_, _, rfl, rfl, by decide +kernel,
    ⟨[[⟨⟨2, targetOf entries⟩, some "t0"⟩], [⟨⟨1, targetOf accounts⟩, none⟩]], none, "id", 1⟩,
    by decide +kernel, by decide +kernel, by decide +kernel⟩

end DuckdbMl.Sql
