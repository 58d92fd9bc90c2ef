import DuckdbMl.Sql.Write

/-!
# Typed SQL: the numbering of aliases

Every table of a select has its alias before any expression of the select renders; the selects
take theirs in the order in which they open, the pieces of a text from left to right.

## Main definitions

* `opened`: the tables of a text in that order: those of a select, then those inside it
* `Numbered`: the aliases of a text are the next ones of the counter

## Main results

* `numbered_of_renderSource`: the aliases of a source are numbered from the counter on
* `aliases_of_renderStatement`: so are those of a write statement
-/

namespace DuckdbMl.Sql

/-! ### Tables in the order of their selects -/

mutual

/-- The tables of the selects of a text: those of a select before those of the selects in it. -/
def Fragment.opened : Fragment → List Occurrence
  | .raw _ => []
  | .column _ _ _ => []
  | .table _ => []
  | .select pieces => tables pieces ++ opened pieces

def opened : List Fragment → List Occurrence
  | [] => []
  | f :: rest => f.opened ++ opened rest

end

section Opened

variable {ps qs : List Fragment} {sep : String} (l : List (List Fragment))

@[simp] theorem opened_append : opened (ps ++ qs) = opened ps ++ opened qs := by
  induction ps with
  | nil => rfl
  | cons f rest ih => simp only [List.cons_append, opened, ih, List.append_assoc]

@[simp] theorem opened_concat : opened (concat sep l) = opened l.flatten := by
  fun_induction concat sep l with
  | case1 => rfl
  | case2 a => simp
  | case3 a rest h ih => simp [ih, opened, Fragment.opened]

@[simp] theorem opened_listed : opened ((listed sep l).getD []) = opened l.flatten := by
  cases l <;> simp [listed, opened, Fragment.opened]

end Opened

/-! ### Numbered texts -/

/-- The aliases that the counter gives between two of its values. -/
def aliasesFrom (n m : ℕ) : List (Option String) :=
  (List.range' n (m - n)).map fun k => some (aliasOf k)

theorem aliasesFrom_self (n : ℕ) : aliasesFrom n n = [] := by
  rw [aliasesFrom, Nat.sub_self]
  rfl

theorem aliasesFrom_append {n k m : ℕ} (hn : n ≤ k) (hm : k ≤ m) :
    aliasesFrom n k ++ aliasesFrom k m = aliasesFrom n m := by
  rw [aliasesFrom, aliasesFrom, aliasesFrom, ← List.map_append]
  have hk : k = n + (k - n) := by omega
  have hs : m - n = (k - n) + (m - k) := by omega
  rw [hs, ← List.range'_append_1, ← hk]

theorem aliasesFrom_succ {n m : ℕ} (h : n < m) :
    aliasesFrom n m = some (aliasOf n) :: aliasesFrom (n + 1) m := by
  have hs : m - n = m - (n + 1) + 1 := by omega
  rw [aliasesFrom, hs, List.range'_succ, List.map_cons]
  rfl

/-- **The selects of a text are numbered**: a computation that takes the counter from `n` to `m`
gave their tables the aliases in between, in order; the text's own tables have the aliases
`own`. -/
structure Numbered (n m : ℕ) (own : List (Option String)) (ps : List Fragment) : Prop where
  le : n ≤ m
  own : (tables ps).map Occurrence.aliasName = own
  opened : (opened ps).map Occurrence.aliasName = aliasesFrom n m

section Numbered

variable {n k m : ℕ} {own own' : List (Option String)} {ps qs : List Fragment}

theorem Numbered.nil : Numbered n n [] [] := ⟨le_rfl, rfl, (aliasesFrom_self n).symm⟩

theorem Numbered.raw {text : String} (h : Numbered n m own ps) :
    Numbered n m own (.raw text :: ps) :=
  ⟨h.le, h.own, h.opened⟩

theorem Numbered.column {qualifier : Option String} {name : String} {scope : ℕ} :
    Numbered n n [] [.column qualifier name scope] :=
  ⟨le_rfl, rfl, (aliasesFrom_self n).symm⟩

theorem Numbered.table {t : Table} {a : Option String} (h : Numbered n m own ps) :
    Numbered n m (a :: own) (.table ⟨t, a⟩ :: ps) :=
  ⟨h.le, congrArg (a :: ·) h.own, h.opened⟩

theorem Numbered.append (hp : Numbered n k own ps) (hq : Numbered k m own' qs) :
    Numbered n m (own ++ own') (ps ++ qs) where
  le := hp.le.trans hq.le
  own := by rw [tables_append, List.map_append, hp.own, hq.own]
  opened := by
    rw [opened_append, List.map_append, hp.opened, hq.opened, aliasesFrom_append hp.le hq.le]

/-- What follows in the text and has no tables of its own. -/
theorem Numbered.followed (hp : Numbered n k own ps) (hq : Numbered k m [] qs) :
    Numbered n m own (ps ++ qs) :=
  own.append_nil ▸ hp.append hq

theorem Numbered.suffix {text : String} (h : Numbered n m own ps) :
    Numbered n m own (ps ++ [.raw text]) :=
  h.followed Numbered.nil.raw

theorem Numbered.concat {sep : String} {l : List (List Fragment)}
    (h : Numbered n m own l.flatten) : Numbered n m own (concat sep l) where
  le := h.le
  own := (tables_concat l).symm ▸ h.own
  opened := (opened_concat l).symm ▸ h.opened

theorem Numbered.listed (keyword : String) {l : List (List Fragment)}
    (h : Numbered n m own l.flatten) : Numbered n m own ((listed keyword l).getD []) where
  le := h.le
  own := (tables_listed l).symm ▸ h.own
  opened := (opened_listed l).symm ▸ h.opened

theorem Numbered.number (keyword : String) (o : Option ℤ) (h : Numbered n m own ps) :
    Numbered n m own (ps ++ number keyword o) := by
  cases o with
  | none => simpa [Sql.number] using h
  | some i => exact h.suffix

theorem Numbered.windowSpec {p o : List (List Fragment)} (frame : Option String)
    (hp : Numbered n k [] p.flatten) (ho : Numbered k m [] o.flatten) :
    Numbered n m [] (Sql.concat " " ([Sql.listed "PARTITION BY " p, Sql.listed "ORDER BY " o,
      frame.map ([.raw ·])].reduceOption)) := by
  refine Numbered.concat ?_
  have hlisted : ∀ (keyword : String) (l : List (List Fragment)),
      (Sql.listed keyword l).toList.flatten = (Sql.listed keyword l).getD [] := by
    intro keyword l
    cases l <;> simp [Sql.listed]
  have hp := hp.listed "PARTITION BY "
  have ho := ho.listed "ORDER BY "
  have hall := hp.followed ho
  cases frame with
  | none =>
    cases p <;> cases o <;> simpa [Sql.listed] using hall
  | some frame =>
    have hall : Numbered n m [] (_ ++ [.raw frame]) := hall.suffix
    cases p <;> cases o <;> simpa [Sql.listed] using hall

/-- A select opens with its own tables, whose aliases the counter has just given. -/
theorem Numbered.select (hn : n ≤ k) (h : Numbered k m (aliasesFrom n k) ps) :
    Numbered n m [] [.select ps] where
  le := hn.trans h.le
  own := rfl
  opened := by
    rw [Sql.opened, Fragment.opened, Sql.opened, List.append_nil, List.map_append, h.own,
      h.opened, aliasesFrom_append hn h.le]

end Numbered

/-! ### Expressions and sources -/

mutual

theorem numbered_of_render {c : Context} {a : Node} {n m : ℕ} {ps : List Fragment}
    (h : render c a n = .ok (ps, m)) : Numbered n m [] ps := by
  match a with
  | .column scope name =>
    rw [render] at h
    cases hl : c.aliases.lookup scope with
    | none =>
      rw [hl] at h
      exact absurd h foreign_ne_ok
    | some q =>
      rw [hl] at h
      obtain ⟨rfl, rfl⟩ := pure_eq_ok.mp h
      exact .column
  | .param _ _ _ =>
    rw [render] at h
    split at h
    case isTrue => exact absurd h foreign_ne_ok
    case isFalse =>
      obtain ⟨rfl, rfl⟩ := pure_eq_ok.mp h
      exact Numbered.nil.raw
  | .literal _ _ | .countStar =>
    obtain ⟨rfl, rfl⟩ := pure_eq_ok.mp h
    exact Numbered.nil.raw
  | .apply _ args =>
    simp only [render, bind_eq_ok, pure_eq_ok] at h
    obtain ⟨_, _, hargs, rfl, rfl⟩ := h
    exact (numbered_of_renderAll hargs).concat.raw.suffix
  | .infixOp _ a b =>
    simp only [render, bind_eq_ok, pure_eq_ok] at h
    obtain ⟨_, _, ha, _, _, hb, rfl, rfl⟩ := h
    exact ((numbered_of_render ha).raw.followed (numbered_of_render hb).raw).suffix
  | .prefixOp _ a | .postfixOp a _ | .cast a _ =>
    simp only [render, bind_eq_ok, pure_eq_ok] at h
    obtain ⟨_, _, ha, rfl, rfl⟩ := h
    exact (numbered_of_render ha).raw.suffix
  | .existsIn s | .scalar s =>
    simp only [render, bind_eq_ok, pure_eq_ok] at h
    obtain ⟨_, _, hs, rfl, rfl⟩ := h
    exact (numbered_of_renderSource hs).raw.suffix
  | .inSubquery a s =>
    simp only [render, bind_eq_ok, pure_eq_ok] at h
    obtain ⟨_, _, ha, _, _, hs, rfl, rfl⟩ := h
    exact ((numbered_of_render ha).raw.followed (numbered_of_renderSource hs).raw).suffix
  | .over f ⟨partition, order, frame⟩ =>
    simp only [render, bind_eq_ok, pure_eq_ok] at h
    obtain ⟨_, _, hf, _, _, hp, _, _, ho, rfl, rfl⟩ := h
    have hw := (numbered_of_renderAll hp).windowSpec frame (numbered_of_renderOrders ho)
    exact ((numbered_of_render hf).followed hw.raw).suffix

theorem numbered_of_renderAll {c : Context} {as : List Node} {n m : ℕ}
    {l : List (List Fragment)} (h : renderAll c as n = .ok (l, m)) :
    Numbered n m [] l.flatten := by
  match as with
  | [] =>
    obtain ⟨rfl, rfl⟩ := pure_eq_ok.mp h
    exact .nil
  | a :: rest =>
    simp only [renderAll, bind_eq_ok, pure_eq_ok] at h
    obtain ⟨_, _, ha, _, _, hr, rfl, rfl⟩ := h
    exact (numbered_of_render ha).followed (numbered_of_renderAll hr)

theorem numbered_of_renderOrders {c : Context} {orders : List Order} {n m : ℕ}
    {l : List (List Fragment)} (h : renderOrders c orders n = .ok (l, m)) :
    Numbered n m [] l.flatten := by
  match orders with
  | [] =>
    obtain ⟨rfl, rfl⟩ := pure_eq_ok.mp h
    exact .nil
  | ⟨key, _⟩ :: rest =>
    simp only [renderOrders, bind_eq_ok, pure_eq_ok] at h
    obtain ⟨_, _, ha, _, _, hr, rfl, rfl⟩ := h
    exact (numbered_of_render ha).suffix.followed (numbered_of_renderOrders hr)

theorem numbered_of_renderClause {c : Context} {keyword : String} {o : Option Node} {n m : ℕ}
    {ps : List Fragment} (h : renderClause c keyword o n = .ok (ps, m)) :
    Numbered n m [] ps := by
  match o with
  | none =>
    obtain ⟨rfl, rfl⟩ := pure_eq_ok.mp h
    exact .nil
  | some a =>
    simp only [renderClause, bind_eq_ok, pure_eq_ok] at h
    obtain ⟨_, _, ha, rfl, rfl⟩ := h
    exact (numbered_of_render ha).raw

/-- The JOIN clauses hold their tables, under the aliases they were given. -/
theorem numbered_of_renderJoins {c : Context} {joins : List Join} {i n m : ℕ}
    {ps : List Fragment}
    (h : renderJoins c joins ((List.range' i joins.length).map aliasOf) n = .ok (ps, m)) :
    Numbered n m (aliasesFrom i (i + joins.length)) ps := by
  match joins with
  | [] =>
    obtain ⟨rfl, rfl⟩ := pure_eq_ok.mp h
    rw [List.length_nil, Nat.add_zero, aliasesFrom_self]
    exact .nil
  | ⟨_, target, scope, on⟩ :: rest =>
    simp only [List.length_cons, List.range'_succ, List.map_cons, renderJoins, bind_eq_ok,
      pure_eq_ok] at h
    obtain ⟨_, _, ho, _, _, hr, rfl, rfl⟩ := h
    have hr := numbered_of_renderJoins hr
    have hall := ((numbered_of_renderClause ho).table (t := ⟨scope, target⟩)
      (a := some (aliasOf i))).append hr
    rw [List.length_cons, Nat.add_comm rest.length 1, ← Nat.add_assoc,
      aliasesFrom_succ (by omega)]
    exact hall.raw

/-- **The selects of a source are numbered** from the counter on. -/
theorem numbered_of_renderSource {c : Context} {s : Source} {n m : ℕ} {ps : List Fragment}
    (h : renderSource c s n = .ok (ps, m)) : Numbered n m [] ps := by
  match s with
  | .select target scope ⟨_, list, distinct, joins, where_, groupBy, having, qualify, orderBy,
      limit, offset⟩ =>
    simp only [renderSource, bind_eq_ok, pure_eq_ok, freshAlias_eq_ok, freshAliases_eq,
      Except.ok.injEq, Prod.mk.injEq] at h
    obtain ⟨_, _, ⟨rfl, rfl⟩, _, _, ⟨rfl, rfl⟩, _, _, hl, _, _, hj, _, _, hw, _, _, hg, _, _, hh,
      _, _, hq, _, _, ho, rfl, rfl⟩ := h
    -- the tables of the FROM clause have the first numbers, though the list comes before them
    have hfrom := (numbered_of_renderJoins hj).table (t := ⟨scope, target⟩)
      (a := some (aliasOf n))
    rw [← aliasesFrom_succ (by omega)] at hfrom
    have hlist : Numbered (n + 1 + joins.length) _ []
        (.raw ("SELECT " ++ if distinct then "DISTINCT " else "") :: concat ", " _) :=
      (numbered_of_renderAll hl).concat.raw
    have hstart := hlist.append (hfrom.raw : Numbered _ _ _ (.raw " FROM " :: _))
    have hclauses := ((((hstart.followed (numbered_of_renderClause hw)).followed
      ((numbered_of_renderAll hg).listed " GROUP BY ")).followed
      (numbered_of_renderClause hh)).followed (numbered_of_renderClause hq)).followed
      ((numbered_of_renderOrders ho).listed " ORDER BY ")
    exact Numbered.select (by omega) ((hclauses.number "LIMIT" limit).number "OFFSET" offset)
  | .set _ left right =>
    simp only [renderSource, bind_eq_ok, pure_eq_ok] at h
    obtain ⟨_, _, ha, _, _, hb, rfl, rfl⟩ := h
    exact ((numbered_of_renderSource ha).raw.followed (numbered_of_renderSource hb).raw).suffix

end

/-! ### Statements -/

/-- The tables of a statement's text: its target, then those of the selects in it. -/
def statementTables (l : List Region) : List Occurrence :=
  l.flatMap fun g => tables g.pieces ++ opened g.pieces

/-- The parts of a statement's text between two values of the counter. -/
def NumberedRegions (n m : ℕ) (l : List Region) : Prop :=
  n ≤ m ∧ (statementTables l).map Occurrence.aliasName = aliasesFrom n m

section Statements

variable {c : Context} {n k m : ℕ} {l r : List Region} {ps : List Fragment}

theorem NumberedRegions.nil : NumberedRegions n n [] := ⟨le_rfl, (aliasesFrom_self n).symm⟩

theorem NumberedRegions.append (hl : NumberedRegions n k l) (hr : NumberedRegions k m r) :
    NumberedRegions n m (l ++ r) := by
  refine ⟨hl.1.trans hr.1, ?_⟩
  rw [statementTables, List.flatMap_append, List.map_append, ← aliasesFrom_append hl.1 hr.1,
    ← hl.2, ← hr.2]
  rfl

theorem Numbered.region {levels : List (List Occurrence)} (h : Numbered n m [] ps) :
    NumberedRegions n m [⟨levels, ps⟩] := by
  refine ⟨h.le, ?_⟩
  rw [statementTables, List.flatMap_singleton, List.map_append, h.own, h.opened, List.nil_append]

/-- The target of a statement has the first alias. -/
theorem numberedRegions_target {levels : List (List Occurrence)} {t : Table} {keyword : String}
    {rest : List Fragment} (hrest : Numbered (n + 1) (n + 1) [] rest) :
    NumberedRegions n (n + 1) [⟨levels, .raw keyword :: .table ⟨t, some (aliasOf n)⟩ :: rest⟩] := by
  have h : Numbered (n + 1) (n + 1) [some (aliasOf n)]
      (.raw keyword :: .table ⟨t, some (aliasOf n)⟩ :: rest) := hrest.table.raw
  refine ⟨Nat.le_succ n, ?_⟩
  rw [statementTables, List.flatMap_singleton, List.map_append, h.own, h.opened,
    aliasesFrom_self, aliasesFrom_succ n.lt_succ_self, aliasesFrom_self]
  rfl

theorem numbered_of_renderAssigned {assignments : List Assignment} {l : List (List Fragment)}
    (h : renderAssigned c assignments n = .ok (l, m)) : Numbered n m [] l.flatten := by
  induction assignments generalizing n l with
  | nil =>
    obtain ⟨rfl, rfl⟩ := pure_eq_ok.mp h
    exact .nil
  | cons a rest ih =>
    simp only [renderAssigned, bind_eq_ok, pure_eq_ok] at h
    obtain ⟨_, _, ha, _, _, hr, rfl, rfl⟩ := h
    exact (numbered_of_render ha).raw.followed (ih hr)

theorem numbered_of_renderReturning {result : Result}
    (h : renderReturning c result n = .ok (ps, m)) : Numbered n m [] ps := by
  cases result with
  | count =>
    obtain ⟨rfl, rfl⟩ := pure_eq_ok.mp h
    exact .nil
  | returning columns list =>
    simp only [renderReturning, bind_eq_ok, pure_eq_ok] at h
    obtain ⟨_, _, hl, rfl, rfl⟩ := h
    exact (numbered_of_renderAll hl).concat.raw

theorem numbered_of_renderConflict {t : Occurrence} {conflict : Option ResolvedConflict}
    (h : renderConflict c t conflict n = .ok (l, m)) : NumberedRegions n m l := by
  match conflict with
  | none =>
    obtain ⟨rfl, rfl⟩ := pure_eq_ok.mp h
    exact .nil
  | some ⟨names, none⟩ =>
    obtain ⟨rfl, rfl⟩ := pure_eq_ok.mp h
    exact Numbered.nil.raw.region
  | some ⟨names, some u⟩ =>
    simp only [renderConflict, bind_eq_ok, pure_eq_ok] at h
    obtain ⟨_, _, hs, _, _, hw, rfl, rfl⟩ := h
    exact (Numbered.nil.raw.region.append (numbered_of_renderAssigned hs).concat.region).append
      (numbered_of_renderClause hw).region

theorem numbered_of_renderValues {assignments : List Assignment}
    (h : renderValues c assignments n = .ok (ps, m)) : Numbered n m [] ps := by
  cases assignments with
  | nil =>
    obtain ⟨rfl, rfl⟩ := pure_eq_ok.mp h
    exact Numbered.nil.raw
  | cons a rest =>
    simp only [renderValues, bind_eq_ok, pure_eq_ok] at h
    obtain ⟨_, _, hl, rfl, rfl⟩ := h
    exact (numbered_of_renderAll hl).concat.raw.suffix

theorem numbered_of_renderInto {columns : List String} {source : Source}
    (h : renderInto c columns source n = .ok (ps, m)) : Numbered n m [] ps := by
  simp only [renderInto, bind_eq_ok, pure_eq_ok] at h
  obtain ⟨_, _, hs, rfl, rfl⟩ := h
  exact (numbered_of_renderSource hs).raw

/-- The aliases in a statement's text, in order. -/
def statementAliases (l : List Region) : List String :=
  (statementTables l).filterMap Occurrence.aliasName

theorem NumberedRegions.aliases (h : NumberedRegions n m l) :
    statementAliases l = (List.range' n (m - n)).map aliasOf := by
  have hid : statementAliases l = ((statementTables l).map Occurrence.aliasName).reduceOption := by
    rw [List.reduceOption, List.filterMap_map]
    rfl
  rw [hid, h.2, aliasesFrom, List.reduceOption, List.filterMap_map, ← List.filterMap_eq_map]
  rfl

theorem aliases_of_renderInsert {target : String} {scope : ℕ} {body : Render (List Fragment)}
    {conflict : Option ResolvedConflict} {result : Result}
    (hbody : ∀ n ps m, body n = .ok (ps, m) → Numbered n m [] ps)
    (h : renderInsert c target scope body conflict result n = .ok (l, m)) :
    statementAliases l = (List.range' n (m - n)).map aliasOf := by
  simp only [renderInsert, bind_eq_ok, pure_eq_ok] at h
  obtain ⟨a, n', ha, ps, _, hb, onConflict, _, hc, returning, _, hr, rfl, rfl⟩ := h
  have hrest : NumberedRegions n' _
      (⟨[], ps⟩ :: onConflict ++ [⟨[[⟨⟨scope, target⟩, a⟩]], returning⟩]) :=
    ((hbody _ _ _ hb).region.append (numbered_of_renderConflict hc)).append
      (numbered_of_renderReturning hr).region
  cases conflict with
  | none =>
    -- the target has no alias
    obtain ⟨rfl, rfl⟩ := pure_eq_ok.mp ha
    exact hrest.aliases
  | some r =>
    simp only [insertAlias, bind_eq_ok, pure_eq_ok, freshAlias_eq_ok] at ha
    obtain ⟨_, _, ⟨rfl, rfl⟩, rfl, rfl⟩ := ha
    exact ((numberedRegions_target Numbered.nil).append hrest).aliases

/-- **The tables of a statement are numbered**: its target if it has an alias, then those of its
selects. -/
theorem aliases_of_renderStatement {st : Statement} (h : renderStatement c st n = .ok (l, m)) :
    statementAliases l = (List.range' n (m - n)).map aliasOf := by
  obtain ⟨target, scope, kind, result⟩ := st
  cases kind with
  | updateStatement assignments where_ =>
    simp only [renderStatement, bind_eq_ok, pure_eq_ok, freshAlias_eq_ok] at h
    obtain ⟨_, _, ⟨rfl, rfl⟩, _, _, hs, _, _, hw, _, _, hr, rfl, rfl⟩ := h
    refine NumberedRegions.aliases ?_
    exact (((numberedRegions_target Numbered.nil.raw).append
      (numbered_of_renderAssigned hs).concat.region).append
      (numbered_of_renderClause hw).region).append (numbered_of_renderReturning hr).region
  | deleteStatement where_ =>
    simp only [renderStatement, bind_eq_ok, pure_eq_ok, freshAlias_eq_ok] at h
    obtain ⟨_, _, ⟨rfl, rfl⟩, _, _, hw, _, _, hr, rfl, rfl⟩ := h
    refine NumberedRegions.aliases ?_
    exact ((numberedRegions_target Numbered.nil).append
      (numbered_of_renderClause hw).region).append (numbered_of_renderReturning hr).region
  | insertValues assignments conflict =>
    exact aliases_of_renderInsert (fun _ _ _ => numbered_of_renderValues) h
  | insertSelect columns source conflict =>
    exact aliases_of_renderInsert (fun _ _ _ => numbered_of_renderInto) h

end Statements

end DuckdbMl.Sql
