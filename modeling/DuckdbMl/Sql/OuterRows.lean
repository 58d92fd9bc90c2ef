import DuckdbMl.Sql.Constructed

/-!
# Typed SQL: left-joined columns are read as nullable

A left join promises that its columns are NULL only where they are read as such. It keeps the
promise of the programs whose `~on` lets its row into nothing but the condition that it answers.

## Main definitions

* `JoinedRow`: a row that a column of a query is read from
* `Engine`: what is known of NULL in results
* `Promised`, `Program.LeftReads`: what a left join promises of a rendered query

## Main results

* `notNull_of_public`: an expression with a non-null codec is not NULL if none of its columns is
* `leftJoin_code`: the code's `left_join` builds the program's join
* `leftReads_iff`: a left join keeps its promise exactly when no row gets out of the condition that
  `~on` answered
* `leftJoin_leaks`: a query whose `~on` stores a column that the body selects
-/

namespace DuckdbMl.Sql

/-! ### NULL -/

/-- A row of the joined tables. Only a table that may be absent is, and no column declared
non-null holds NULL. -/
structure JoinedRow (binds : ℕ → Binder) (p : Spot) where
  stored : Option (String → Option Value)
  absent : stored = none → p.Extended (home binds)
  declared : ∀ r, stored = some r → ∀ t,
    binds (home binds p.scope) = .table t ∨ binds (home binds p.scope) = .left t →
      ∀ c ∈ t.columns, ∀ plan, c.2 = .nonNull plan → r c.1 ≠ none

/-- The value of the column, `none` for NULL. -/
def JoinedRow.value {binds : ℕ → Binder} {p : Spot} (j : JoinedRow binds p) : Option Value :=
  j.stored.bind (· p.name)

/-- What is known of NULL in the results of expressions: `notNull a` if no row has NULL for `a`.
Arguments are bound by their codecs, operators give NULL for NULL only, and counts, ranks and tests
for NULL are never NULL. -/
structure Engine (notNull : Node → Prop) : Prop where
  param : ∀ p : Param, p.codec.NonNull → notNull (param p).node
  literal : ∀ sql constant, notNull (.literal sql constant)
  infixOp : ∀ op ∈ "LIKE" :: (comparisons ++ ["+", "-", "*", "/"]), ∀ a b, notNull a → notNull b →
    notNull (.infixOp op a b)
  prefixOp : ∀ a, notNull a → notNull (.prefixOp "NOT" a)
  postfixOp : ∀ op ∈ ["IS NULL", "IS TRUE"], ∀ a, notNull (.postfixOp a op)
  cast : ∀ a sqlType, notNull a → notNull (.cast a sqlType)
  coalesce : ∀ a b, notNull b → notNull (.apply "coalesce" [a, b])
  countStar : notNull .countStar
  count : ∀ a, notNull (.apply "count" [a])
  existsIn : ∀ s, notNull (.existsIn s)
  countStarOver : ∀ w, notNull (.over .countStar w)
  countOver : ∀ a w, notNull (.over (.apply "count" [a]) w)
  ranking : ∀ name ∈ "ntile" :: rankings.map Prod.fst, ∀ args w,
    notNull (.over (.apply name args) w)
  shifted : ∀ name ∈ ["lag", "lead"], ∀ a n default w, notNull a → notNull default →
    notNull (.over (.apply name [a, n, default]) w)

section Size

variable {op name sqlType : String} {a b : Node} {w : WindowSpec} {n : ℕ}

theorem sizeOf_left_lt : sizeOf a < sizeOf (Node.infixOp op a b) := by
  rw [Node.infixOp.sizeOf_spec]
  omega

theorem sizeOf_right_lt : sizeOf b < sizeOf (Node.infixOp op a b) := by
  rw [Node.infixOp.sizeOf_spec]
  omega

theorem sizeOf_prefixOp_lt : sizeOf a < sizeOf (Node.prefixOp op a) := by
  rw [Node.prefixOp.sizeOf_spec]
  omega

theorem lt_sizeOf_cast (h : n < sizeOf a) : n < sizeOf (Node.cast a sqlType) := by
  rw [Node.cast.sizeOf_spec]
  omega

theorem lt_sizeOf_over (h : n < sizeOf a) : n < sizeOf (Node.over a w) := by
  rw [Node.over.sizeOf_spec]
  omega

theorem sizeOf_arg_lt {args : List Node} (h : a ∈ args) :
    sizeOf a < sizeOf (Node.apply name args) := by
  have := List.sizeOf_lt_of_mem h
  rw [Node.apply.sizeOf_spec]
  omega

end Size

section NotNull

variable {binds : ℕ → Binder} {notNull : Node → Prop}

/-- The columns at the spots, among the tables `seen`, that callbacks got with a non-null codec are
not NULL. -/
def ColumnsNotNull (binds : ℕ → Binder) (notNull : Node → Prop) (seen : List Seen)
    (l : List Spot) : Prop :=
  ∀ p ∈ l, p.seen = seen → ∀ e, Got binds e → e.node = .column p.scope p.name →
    e.codec.NonNull → notNull (.column (home binds p.scope) p.name)

variable {seen : List Seen}

theorem ColumnsNotNull.left {l m : List Spot} (h : ColumnsNotNull binds notNull seen (l ++ m)) :
    ColumnsNotNull binds notNull seen l := fun p hp => h p (List.mem_append_left _ hp)

theorem ColumnsNotNull.right {l m : List Spot} (h : ColumnsNotNull binds notNull seen (l ++ m)) :
    ColumnsNotNull binds notNull seen m := fun p hp => h p (List.mem_append_right _ hp)

theorem Codec.not_nonNull_nullable {plan : Plan} : ¬ (Codec.nullable plan).NonNull := by
  rintro ⟨plan', hp⟩
  cases hp

theorem not_nonNull_of_nullable {c : Codec} (h : c.Nullable) : ¬ c.NonNull := by
  obtain ⟨plan, rfl⟩ := h
  exact Codec.not_nonNull_nullable

/-- **An expression with a non-null codec is not NULL** if none of its columns that callbacks got
as non-null is. -/
theorem notNull_of_public (he : Engine notNull) {e : Expr} (h : e.Public (envOf binds))
    (hc : ColumnsNotNull binds notNull seen (e.node.spots seen)) (hn : e.codec.NonNull) :
    notNull (e.node.rename (home binds)) := by
  -- on the size of the node: the cases that call for it have smaller operands
  induction hsize : sizeOf e.node using Nat.strong_induction_on generalizing e with
  | _ size ih =>
  have operand : ∀ {a : Expr}, a.Public (envOf binds) → sizeOf a.node < sizeOf e.node →
      ColumnsNotNull binds notNull seen (a.node.spots seen) → a.codec.NonNull →
      notNull (a.node.rename (home binds)) := fun ha hlt hca hna =>
    ih _ (hsize ▸ hlt) ha hca hna rfl
  clear ih hsize
  cases h with
  | column h =>
    obtain ⟨scope, name, codec, rfl⟩ := exists_of_got h
    exact hc _ (List.mem_singleton_self _) rfl _ h rfl hn
  | param p => exact he.param ⟨home binds p.scope, p.index, p.codec⟩ hn
  | bool _ | int8 _ | int16 _ | int32 _ | int64 _ | float32 _ | float64 _ | string _ =>
    exact he.literal _ _
  | value h =>
    obtain ⟨v, rfl⟩ := value_eq_ok h
    obtain ⟨sql, constant, hv⟩ := scalarNode_eq v
    change notNull ((scalarNode v).rename _)
    rw [hv]
    exact he.literal _ _
  | nullable _ | extreme _ _ | sum _ | avg _ | sumOver _ _ | avgOver _ _ | firstValue _ _
  | lastValue _ _ | extremeOver _ _ _ => exact absurd hn Codec.not_nonNull_nullable
  | nullExtreme _ hnull _ | nullSum hnull _ | nullSumOver hnull _ _ =>
    exact absurd hn (not_nonNull_of_nullable hnull)
  | coalesce _ hd h =>
    obtain rfl := coalesce_eq_ok h
    exact he.coalesce _ _ (operand hd (sizeOf_arg_lt (by simp)) hc.right.left hn)
  | isNull _ => exact he.postfixOp _ (by decide) _
  | isTrue _ => exact he.postfixOp _ (by decide) _
  | compare hop hna ha hb h =>
    obtain ⟨hcompatible, rfl⟩ := compareAs_eq_ok h
    exact he.infixOp _ (List.mem_cons_of_mem _ (List.mem_append_left _ hop)) _ _
      (operand ha sizeOf_left_lt hc.left hna)
      (operand hb sizeOf_right_lt hc.right (nonNull_of_compatible hcompatible hna))
  | nullCompare _ _ _ _ h =>
    obtain ⟨-, rfl⟩ := compareAs_eq_ok h
    exact absurd hn Codec.not_nonNull_nullable
  | like hna ha hb h =>
    obtain ⟨hcompatible, rfl⟩ := compareAs_eq_ok h
    exact he.infixOp _ (List.mem_cons_self ..) _ _ (operand ha sizeOf_left_lt hc.left hna)
      (operand hb sizeOf_right_lt hc.right (nonNull_of_compatible hcompatible hna))
  | not ha => exact he.prefixOp _ (operand ha sizeOf_prefixOp_lt hc hn)
  | arith hop hdivision ha hb h =>
    obtain ⟨hcompatible, rfl⟩ := arith_eq_ok h
    refine he.cast _ _ (he.infixOp _ ?_ _ _ (operand ha (lt_sizeOf_cast sizeOf_left_lt) hc.left hn)
      (operand hb (lt_sizeOf_cast sizeOf_right_lt) hc.right (nonNull_of_compatible hcompatible hn)))
    -- integer division takes nullable operands only
    have hne : _ ≠ "//" := fun hd => not_nonNull_of_nullable (hdivision hd) hn
    simp only [arithmetic, List.mem_cons, List.not_mem_nil, or_false, hne] at hop
    simp only [List.mem_cons, List.mem_append, List.not_mem_nil, or_false]
    exact .inr (.inr hop)
  | nullDivision _ _ _ h =>
    obtain rfl := nullDivision_eq_ok h
    exact absurd hn Codec.not_nonNull_nullable
  | countStar => exact he.countStar
  | count _ => exact he.count _
  | @ranking _ _ w hname _ =>
    cases w
    exact he.ranking _ (List.mem_cons_of_mem _ (List.mem_map_of_mem hname)) _ _
  | @ntile _ w _ _ h =>
    cases w
    obtain rfl := ntile_eq_ok h
    exact he.ranking _ (List.mem_cons_self ..) _ _
  | shifted _ hcodec _ _ h =>
    obtain rfl := shifted_eq_ok h
    exact absurd hn (not_nonNull_of_nullable ⟨_, hcodec⟩)
  | @shiftedOr _ _ _ _ _ w hname hd ha _ h =>
    cases w
    obtain ⟨hcompatible, rfl⟩ := shiftedOr_eq_ok h
    have hargs := hc.left.left
    exact he.shifted _ hname _ _ _ _
      (operand ha (lt_sizeOf_over (sizeOf_arg_lt (by simp))) hargs.left hn)
      (operand hd (lt_sizeOf_over (sizeOf_arg_lt (by simp))) hargs.right.right.left
        (nonNull_of_compatible hcompatible hn))
  | nthValue _ _ h =>
    obtain rfl := nthValue_eq_ok h
    exact absurd hn Codec.not_nonNull_nullable
  | @countStarOver w _ =>
    cases w
    exact he.countStarOver _
  | @countOver _ w _ _ =>
    cases w
    exact he.countOver _ _
  | exists_ _ => exact he.existsIn _
  | in_ _ _ _ h =>
    obtain rfl := in_eq_ok h
    exact absurd hn Codec.not_nonNull_nullable
  | scalar _ hcolumn h =>
    exact absurd hn (not_nonNull_of_nullable (scalar_eq_ok (.inl h) hcolumn).2)
  | nullScalar _ hcolumn h =>
    exact absurd hn (not_nonNull_of_nullable (scalar_eq_ok (.inr h) hcolumn).2)

end NotNull

/-! ### The promise -/

/-- What a left join promises of a column in a rendered text: it denotes a table of its scope.
Where the table may be absent it is read from an outer value, as nullable. So what is read as
non-null is NULL in no row. -/
structure Promised (binds : ℕ → Binder) (ref : Reference) (p : Spot) : Prop where
  denotes : ∀ columns, ∃ t, resolve columns ref.qualifier ref.name ref.levels = some t ∧
    t.scope = home binds p.scope
  outer : p.Extended (home binds) → ∃ t, binds p.scope = .left t ∧
    ∀ e, Got binds e → e.node = .column p.scope p.name →
      ∃ o ∈ outerBinders t.columns p.scope, e = o.lift
  nullable : p.Extended (home binds) → ∀ e, Got binds e → e.node = .column p.scope p.name →
    e.codec.Nullable
  sound : ∀ e, Got binds e → e.node = .column p.scope p.name → e.codec.NonNull →
    ∀ j : JoinedRow binds p, j.value ≠ none

/-- The selects whose rows are those of a source, each with the tables that its expressions see. -/
def Source.branches (seen : List Seen) : Source → List (List Seen × Body)
  | .select target scope b => [(⟨⟨scope, target⟩, false⟩ :: (b.joins.map Join.seen ++ seen), b)]
  | .set _ left right => left.branches seen ++ right.branches seen

/-- **The promise of left joins**: if the query renders, every column of its text is as promised,
and no value that is decoded as non-null is NULL, in the rows of any of its selects. -/
structure Program.LeftReads (q : Program) (g : Generated) : Prop where
  references : List.Forall₂ (Promised q.binds) (references [] g.sql) (q.source.spots [])
  decoded : ∀ notNull, Engine notNull → ∀ x ∈ q.source.branches [],
    (∀ p ∈ nodesSpots x.1 x.2.list, p.seen = x.1 →
      (∀ j : JoinedRow q.binds p, j.value ≠ none) →
        notNull (.column (home q.binds p.scope) p.name)) →
    ∀ (i : ℕ) (plan : Plan) (a : Node), g.columns[i]? = some (.nonNull plan) →
      x.2.list[i]? = some a → notNull (a.rename (home q.binds))

/-! ### What the code makes of a join -/

section Code

variable {binds : ℕ → Binder}

def Expr.rename (ρ : ℕ → ℕ) (e : Expr) : Expr := ⟨e.node.rename ρ, e.codec⟩

def Body.rename (ρ : ℕ → ℕ) (b : Body) : Body where
  columns := b.columns
  list := renameNodes ρ b.list
  distinct := b.distinct
  joins := renameJoins ρ b.joins
  where_ := renameClause ρ b.where_
  groupBy := renameNodes ρ b.groupBy
  having := renameClause ρ b.having
  qualify := renameClause ρ b.qualify
  orderBy := renameOrders ρ b.orderBy
  limit := b.limit
  offset := b.offset

theorem rename_select (ρ : ℕ → ℕ) (target : String) (scope : ℕ) (b : Body) :
    (Source.select target scope b).rename ρ = .select target (ρ scope) (b.rename ρ) := by
  obtain ⟨_, _, _, _, _, _, _, _, _, _, _⟩ := b
  rfl

/-- The row that a program's `~on` gets in a scope of its own is in the scope of the table for the
code. -/
theorem map_rename_binders (columns : List (String × Codec)) {row scope : ℕ}
    (hr : binds row = .onRow scope) :
    (binders columns row).map (Expr.rename (home binds)) = binders columns scope := by
  have hhome : home binds row = scope := by rw [home, hr]
  rw [binders, binders, List.map_map]
  refine List.map_congr_left fun c _ => ?_
  rw [Function.comp_apply, Expr.rename, Node.rename, hhome]

/-- **`left_join` joins what the program does**: callbacks that answer to what they got, `~on` to
its own row as the code sees it, what the program's answer is for the code, make it build the
program's join. -/
theorem leftJoin_code {M : Type} {t : TableDef} {row scope : ℕ} {m : M} {st st' : ℕ × M}
    {on : List Expr → Callback M Expr} {f : List Outer → Callback M Body} {condition : Expr}
    {b : Body} (ht : binds scope = .left t) (hr : binds row = .onRow scope)
    (hon : on ((binders t.columns row).map (Expr.rename (home binds))) (scope + 1, m) =
      .ok (condition.rename (home binds), st))
    (hf : f (outerBinders t.columns scope) st = .ok (b.rename (home binds), st')) :
    leftJoin t on f (scope, m) =
      .ok ((joined .left t scope (some condition.node) b).rename (home binds), st') := by
  have hhome : home binds scope = scope := by rw [home, ht]
  have hjoin : (joined .left t scope (some condition.node) b).rename (home binds) =
      joined .left t scope (some (condition.rename (home binds)).node) (b.rename (home binds)) := by
    simp only [joined, Body.rename, renameJoins, renameClause, hhome, Expr.rename]
  rw [map_rename_binders t.columns hr] at hon
  rw [hjoin]
  simp only [leftJoin, freshScope, bind, StateT.bind, Except.bind, hon, hf]
  rfl

/-- The same of `from`. -/
theorem fromTable_code {M : Type} {t : TableDef} {scope : ℕ} {m : M} {st : ℕ × M}
    {f : List Expr → Callback M Body} {b : Body} (ht : binds scope = .table t)
    (hf : f (binders t.columns scope) (scope + 1, m) = .ok (b.rename (home binds), st)) :
    fromTable t f (scope, m) =
      .ok ((Source.select (targetOf t) scope b).rename (home binds), st) := by
  have hhome : home binds scope = scope := by rw [home, ht]
  rw [rename_select, hhome]
  simp only [fromTable, freshScope, bind, StateT.bind, Except.bind, hf]
  rfl

end Code

section LeftReads

variable {binds : ℕ → Binder} {p : Spot} {e : Expr}

theorem Outer.lift_nullable (o : Outer) : o.lift.codec.Nullable := by
  rw [Outer.lift]
  split
  case h_1 plan _ => exact ⟨plan, rfl⟩
  case h_2 plan h => exact ⟨plan, h⟩

/-- Of a left-joined table callbacks got outer values only. -/
theorem exists_outer_of_got (h : Got binds e) {scope : ℕ} {name : String}
    (he : e.node = .column scope name) {t : TableDef} (ht : binds scope = .left t) :
    ∃ o ∈ outerBinders t.columns scope, e = o.lift := by
  cases h with
  -- the scope is a left join's: neither that of a plain table nor that of a row of `~on`
  | row ht' hm =>
    obtain ⟨c, -, rfl⟩ := List.mem_map.mp hm
    obtain ⟨rfl, -⟩ := Node.column.inj he
    cases ht.symm.trans ht'
  | onRow hr _ hm =>
    obtain ⟨c, -, rfl⟩ := List.mem_map.mp hm
    obtain ⟨rfl, -⟩ := Node.column.inj he
    cases ht.symm.trans hr
  | @outer s t' o ht' ho =>
    obtain ⟨c, hc, rfl⟩ := List.mem_map.mp ho
    rw [Outer.lift_node] at he
    obtain ⟨rfl, -⟩ := Node.column.inj he
    obtain rfl := Binder.left.inj (ht.symm.trans ht')
    exact ⟨_, ho, rfl⟩

/-- A table that is there holds no NULL in a column read as non-null. -/
theorem JoinedRow.value_ne_none (j : JoinedRow binds p) (hg : Got binds e)
    (he : e.node = .column p.scope p.name) (hn : e.codec.NonNull)
    (hleft : p.Extended (home binds) → ∃ d, binds (home binds p.scope) = .left d)
    (hrow : p.Extended (home binds) → ∀ s, ¬ p.OnRow binds s) : j.value ≠ none := by
  obtain ⟨plan, hplan⟩ := hn
  cases hg with
  -- a row of a table: it is absent only if the table is left-joined, and this one is not
  | @row s t e ht hm =>
    obtain ⟨c, hc, rfl⟩ := List.mem_map.mp hm
    obtain ⟨hs, hname⟩ := Node.column.inj he
    have hhome : binds (home binds p.scope) = .table t := by
      rw [← hs, home, ht]
      exact ht
    cases hstored : j.stored with
    | none =>
      obtain ⟨d, hd⟩ := hleft (j.absent hstored)
      cases hhome.symm.trans hd
    | some r =>
      rw [JoinedRow.value, hstored, Option.bind_some, ← hname]
      exact j.declared r hstored t (.inl hhome) c hc plan hplan
  -- a row of `~on`: it is absent only outside the condition, and does not get there
  | @onRow r s t e hr ht hm =>
    obtain ⟨c, hc, rfl⟩ := List.mem_map.mp hm
    obtain ⟨hs, hname⟩ := Node.column.inj he
    have honRow : p.OnRow binds s := by
      rw [Spot.OnRow, ← hs, hr]
    cases hstored : j.stored with
    | none => exact absurd honRow (hrow (j.absent hstored) s)
    | some r =>
      rw [JoinedRow.value, hstored, Option.bind_some, ← hname]
      exact j.declared r hstored t (.inr (honRow.home.symm ▸ ht)) c hc plan hplan
  -- an outer value is nullable
  | outer _ _ => exact absurd ⟨plan, hplan⟩ (not_nonNull_of_nullable (Outer.lift_nullable _))

/-- A column is as promised if it is no row that got out of a condition. -/
theorem promised_of_place {ref : Reference} (hplace : ref.place = p.place (home binds))
    (hd : ∀ columns, ref.Denotes columns)
    (hleft : p.Extended (home binds) → ∃ d, binds (home binds p.scope) = .left d)
    (hrow : p.Extended (home binds) → ∀ s, ¬ p.OnRow binds s) : Promised binds ref p := by
  -- where the row may be absent the scope is that of a left join, of which all values are outer
  have houter : p.Extended (home binds) → ∃ t, binds p.scope = .left t ∧
      ∀ e, Got binds e → e.node = .column p.scope p.name →
        ∃ o ∈ outerBinders t.columns p.scope, e = o.lift := by
    intro hx
    obtain ⟨d, hd⟩ := hleft hx
    cases hb : binds p.scope with
    | table t =>
      rw [home, hb, hb] at hd
      cases hd
    | left t => exact ⟨t, rfl, fun e hg he => exists_outer_of_got hg he hb⟩
    | onRow s => exact absurd hb (hrow hx s)
  constructor
  · intro columns
    obtain ⟨hb, he⟩ := hd columns
    obtain ⟨t, ht⟩ := Option.isSome_iff_exists.mp hb
    have hs : t.scope = ref.scope := by simpa using List.find?_some ht
    have huse := congrArg Place.use hplace
    exact ⟨t, he.trans ht, hs.trans (Use.column.inj huse).1⟩
  · exact houter
  · intro hx e hg he
    obtain ⟨t, -, ho⟩ := houter hx
    obtain ⟨o, -, rfl⟩ := ho e hg he
    exact o.lift_nullable
  · exact fun e hg he hn j => j.value_ne_none hg he hn hleft hrow

/-- Lists related element by element, with what is known of the elements. -/
theorem forall₂_imp_mem {α β : Type} {R T : α → β → Prop} {as : List α} {bs : List β}
    (hR : List.Forall₂ R as bs) (h : ∀ a ∈ as, ∀ b ∈ bs, R a b → T a b) :
    List.Forall₂ T as bs := by
  induction hR with
  | nil => exact .nil
  | cons hab _ ih =>
    refine .cons (h _ (List.mem_cons_self ..) _ (List.mem_cons_self ..) hab) (ih ?_)
    exact fun a ha b hb => h a (List.mem_cons_of_mem _ ha) b (List.mem_cons_of_mem _ hb)

theorem exists_of_forall₂ {α β : Type} {R : α → β → Prop} {as : List α} {bs : List β}
    (h : List.Forall₂ R as bs) {b : β} (hb : b ∈ bs) : ∃ a, R a b := by
  induction h with
  | nil => cases hb
  | cons hab _ ih =>
    rcases List.mem_cons.mp hb with rfl | hb
    · exact ⟨_, hab⟩
    · exact ih hb

theorem exists_public_exprs {env : Env} {b : Body} (hb : b.Public env) :
    ∃ exprs, b.Lists exprs ∧ ∀ e ∈ exprs, e.Public env := by
  match hb with
  | .select he _ _ _ h => exact ⟨_, lists_of_select h, he⟩
  | .selectOver he _ _ _ _ h => exact ⟨_, lists_of_selectOver h, he⟩
  | .aggregate he _ h => exact ⟨_, lists_of_aggregate h, he⟩
  | .groupBy _ hf hb h =>
    obtain ⟨exprs, hl, he⟩ := exists_public_exprs hb
    exact ⟨exprs, hl.groupBy hf h, he⟩
  | .join _ _ _ hb =>
    obtain ⟨exprs, hl, he⟩ := exists_public_exprs hb
    exact ⟨exprs, ⟨hl.columns, hl.list⟩, he⟩
  | .crossJoin _ hb =>
    obtain ⟨exprs, hl, he⟩ := exists_public_exprs hb
    exact ⟨exprs, ⟨hl.columns, hl.list⟩, he⟩

theorem mem_nodesSpots {seen : List Seen} {a : Node} {l : List Node} (ha : a ∈ l) :
    ∀ p ∈ a.spots seen, p ∈ nodesSpots seen l := by
  induction l with
  | nil => cases ha
  | cons b rest ih =>
    intro p hp
    rcases List.mem_cons.mp ha with rfl | ha
    · exact List.mem_append_left _ hp
    · exact List.mem_append_right _ (ih ha p hp)

/-- A branch is one of the selects, and its list is read among its tables. -/
theorem mem_branches {seen : List Seen} {s : Source} {x : List Seen × Body}
    (hx : x ∈ s.branches seen) :
    x.2 ∈ s.leaves ∧ ∀ p ∈ nodesSpots x.1 x.2.list, p ∈ s.spots seen := by
  match s with
  | .select target scope ⟨_, list, _, joins, where_, groupBy, having, qualify, orderBy, _, _⟩ =>
    obtain rfl := List.mem_singleton.mp hx
    refine ⟨List.mem_singleton_self _, fun p hp => ?_⟩
    simp only [Source.spots, List.mem_append]
    exact .inl (.inl (.inl (.inl (.inl (.inl hp)))))
  | .set _ left right =>
    rcases List.mem_append.mp hx with hx | hx
    · obtain ⟨hl, hs⟩ := mem_branches hx
      exact ⟨List.mem_append_left _ hl, fun p hp => List.mem_append_left _ (hs p hp)⟩
    · obtain ⟨hl, hs⟩ := mem_branches hx
      exact ⟨List.mem_append_right _ hl, fun p hp => List.mem_append_right _ (hs p hp)⟩

theorem columns_of_query {params : List Codec} {scope : ℕ} {s : Source} {g : Generated}
    (h : query params scope s = .ok g) : g.columns = s.leftmost.columns := by
  rw [query] at h
  cases hr : renderSource ⟨[], some scope⟩ s 0 with
  | error _ => rw [hr] at h; cases h
  | ok r =>
    rw [hr] at h
    obtain rfl := Except.ok.inj h
    rfl

theorem agree_getElem? {a b : List Codec} (h : Agree a b) {i : ℕ} {c : Codec}
    (hc : a[i]? = some c) : ∃ d, b[i]? = some d ∧ compatible c d = true := by
  induction h generalizing i with
  | nil => cases hc
  | cons hab _ ih =>
    cases i with
    | zero =>
      obtain rfl := Option.some_inj.mp hc
      exact ⟨_, rfl, hab⟩
    | succ i => exact ih hc

/-- A row gets out of no condition if the dataflow of the program has no strays. -/
theorem not_onRow_of_strays {q : Program} (h : q.source.strays q.binds = [])
    {p : Spot} (hp : p ∈ q.source.spots []) (hx : p.Extended (home q.binds)) :
    ∀ s, ¬ p.OnRow q.binds s := by
  intro s hr
  have hs := q.source.strays_of_extended q.isPublic.bound hp hr hx
  rw [h] at hs
  cases hs

theorem leftReads_of_strays {q : Program} {params : List Codec} {scope : ℕ} {g : Generated}
    (hg : query params scope q.code = .ok g) (h : q.source.strays q.binds = []) :
    q.LeftReads g := by
  have hbound := q.isPublic.bound
  obtain ⟨m, he⟩ := emitted_of_query hg
  constructor
  · have hplaces : (references [] g.sql).map Reference.place =
        (q.source.spots []).map (Spot.place (home q.binds)) :=
      he.places.trans (q.source.map_spots (home q.binds) []).symm
    rw [← List.forall₂_eq_eq_eq, List.forall₂_map_left_iff, List.forall₂_map_right_iff] at hplaces
    refine forall₂_imp_mem hplaces fun ref href p hp hplace => ?_
    exact promised_of_place hplace (fun columns => he.denotes href (by simp) columns)
      (left_of_extended hbound hp) (not_onRow_of_strays h hp)
  · intro notNull hengine x hx hcolumns i plan a hcodec ha
    obtain ⟨hleaf, hspots⟩ := mem_branches hx
    obtain ⟨hagree, hpublic⟩ := compatible_leaves q.isPublic x.2 hleaf
    obtain ⟨exprs, hlists, hexprs⟩ := exists_public_exprs hpublic
    have hcols : g.columns = q.source.leftmost.columns := by
      rw [columns_of_query hg, Program.code, leftmost_rename]
    rw [hlists.list, List.getElem?_map] at ha
    obtain ⟨e, hi, rfl⟩ := Option.map_eq_some_iff.mp ha
    -- the codec of the left-most select is one of the expression's
    have hn : e.codec.NonNull := by
      rw [hcols] at hcodec
      rw [hlists.columns] at hagree
      obtain ⟨d, hd, hcompatible⟩ := agree_getElem? hagree hcodec
      rw [List.getElem?_map, hi] at hd
      obtain rfl := Option.some_inj.mp hd
      exact nonNull_of_compatible hcompatible ⟨plan, rfl⟩
    have hmem := List.mem_of_getElem? hi
    have hlisted : ∀ p ∈ e.node.spots x.1, p ∈ nodesSpots x.1 x.2.list := by
      rw [hlists.list]
      exact mem_nodesSpots (List.mem_map_of_mem hmem)
    have hread : ColumnsNotNull q.binds notNull x.1 (e.node.spots x.1) := by
      intro p hp hseen e' hg' hnode hn'
      have hsource := hspots p (hlisted p hp)
      exact hcolumns p (hlisted p hp) hseen fun j => j.value_ne_none hg' hnode hn'
        (left_of_extended hbound hsource) (not_onRow_of_strays h hsource)
    exact notNull_of_public hengine (hexprs e hmem) hread hn

theorem strays_of_leftReads {q : Program} {params : List Codec} {scope : ℕ} {g : Generated}
    (hg : query params scope q.code = .ok g) (h : q.LeftReads g) :
    q.source.strays q.binds = [] := by
  obtain ⟨m, he⟩ := emitted_of_query hg
  refine List.eq_nil_iff_forall_not_mem.mpr fun s hs => ?_
  -- the query renders, so that every spot of the program is in scope
  have hin : InScope q.binds (q.source.spots []) := by
    intro p hp
    have hplace : p.place (home q.binds) ∈ columnPlaces (q.code.uses []) := by
      have hmap := q.source.map_spots (home q.binds) []
      rw [Program.code, ← show List.map (Seen.at (home q.binds)) [] = [] from rfl, ← hmap]
      exact List.mem_map_of_mem hp
    have hscope : (p.place (home q.binds)).InScope (some scope) :=
      he.inScope _ (List.mem_filter.mp hplace).1
    have hmap : (p.seen.map (Seen.at (home q.binds))).map Table.scope =
        p.seen.map fun t => home q.binds t.scope := by
      rw [List.map_map]
      rfl
    rw [← hmap]
    exact hscope
  have hnone : Extends q.binds [] [] := fun t ht => by cases ht
  -- a stray row is at a spot where it may be absent, and there the promise fails
  obtain ⟨p, hp, hr, hx⟩ :=
    q.source.extended_of_strays hnone List.not_mem_nil q.isPublic.bound hin hs
  obtain ⟨ref, hpromised⟩ := exists_of_forall₂ h.references hp
  obtain ⟨t, ht, -⟩ := hpromised.outer hx
  cases hr.symm.trans ht

/-- **Left-joined columns are read as nullable exactly when `~on` keeps its row to itself.** A
program whose query is not refused keeps the promise of its left joins if and only if no row that a
`~on` got flows into anything but the condition that it answered. -/
theorem leftReads_iff (q : Program) (params : List Codec) (scope : ℕ) :
    (∀ g, query params scope q.code = .ok g → q.LeftReads g) ↔
      ((∀ p ∈ q.code.uses [], p.InScope (some scope)) → q.source.strays q.binds = []) := by
  constructor
  · intro h hin
    obtain ⟨g, hg⟩ := exists_query params hin
    exact strays_of_leftReads hg (h g hg)
  · intro h g hg
    obtain ⟨m, he⟩ := emitted_of_query hg
    exact leftReads_of_strays hg (h he.inScope)

end LeftReads

/-! ### A row that gets out -/

/-- The condition stores the title it got, and the body selects it. -/
def leaking : Callback (Option Expr) Source :=
  fromTable users fun user => leftJoin posts
    (fun post => do
      let (next, _) ← get
      set (next, post[1]?)
      match user, post with
      | uid :: _, owner :: _ => liftM (compare "=" owner uid)
      | _, _ => liftM (mismatched : Except Exn Expr))
    (fun _ => do
      let (_, stored) ← get
      liftM (select {} stored.toList))

/-- The scope 3 is that of the row of the left join in scope 2. -/
def leakingBinds : ℕ → Binder
  | 1 => .table users
  | 2 => .left posts
  | _ => .onRow 2

def leakingTitle (scope : ℕ) : Expr := ⟨.column scope "title", of .string⟩

def leakingCondition : Expr :=
  ⟨.infixOp "=" (.column 3 "owner") (.column 1 "id"), of .bool⟩

def leakingBody : Body :=
  ⟨[of .string], [(leakingTitle 3).node], false, [], none, [], none, none, [], none, none⟩

theorem public_leaking : (Source.select (targetOf users) 1
    (joined .left posts 2 (some leakingCondition.node) leakingBody)).Public
      (envOf leakingBinds) := by
  -- the row of `~on` is in scope 3, that of the table in scope 2
  have howner : Got leakingBinds ⟨.column 3 "owner", of .int64⟩ :=
    .onRow (r := 3) (s := 2) (t := posts) rfl rfl (List.mem_map.mpr ⟨_, .head _, rfl⟩)
  have htitle : Got leakingBinds (leakingTitle 3) :=
    .onRow (r := 3) (s := 2) (t := posts) rfl rfl (List.mem_map.mpr ⟨_, .tail _ (.head _), rfl⟩)
  have huid : Got leakingBinds ⟨.column 1 "id", of .int64⟩ :=
    .row (s := 1) (t := users) rfl (List.mem_map.mpr ⟨_, .head _, rfl⟩)
  have hselect : select {} [leakingTitle 3] = .ok leakingBody := rfl
  -- the body selects what `~on` has stored
  have hbody : leakingBody.Public (envOf leakingBinds) := by
    refine .select (fun e he => ?_) (fun e he => by cases he) (fun e he => by cases he)
      (fun o ho => by cases ho) hselect
    rw [List.mem_singleton.mp he]
    exact .column htitle
  have hcompare : compare "=" ⟨.column 3 "owner", of .int64⟩ ⟨.column 1 "id", of .int64⟩ =
      .ok leakingCondition := rfl
  have hon : leakingCondition.Public (envOf leakingBinds) :=
    .compare (by decide) ⟨_, rfl⟩ (.column howner) (.column huid) hcompare
  have hjoin : (envOf leakingBinds).join .left posts 2 (some leakingCondition.node) :=
    ⟨rfl, fun d hd => by cases hd⟩
  exact .fromTable rfl (.join (by decide) hjoin hon hbody)

def leakingProgram : Program := ⟨leakingBinds, _, public_leaking⟩

theorem leftJoin_leaks :
    ∃ (g : Generated) (p : Spot),
      leaking (1, none) = .ok (leakingProgram.code, 3, some (leakingTitle 2)) ∧
      query [] 0 leakingProgram.code = .ok g ∧
      textOf g.sql = "SELECT t1.\"title\" FROM \"main\".\"users\" AS t0 " ++
        "LEFT JOIN \"main\".\"posts\" AS t1 ON (t1.\"owner\" = t0.\"id\")" ∧
      g.columns = [of .string] ∧
      (leakingProgram.source.spots []).head? = some p ∧ p.OnRow leakingProgram.binds 2 ∧
      (∃ j : JoinedRow leakingProgram.binds p, j.value = none) ∧
      ¬ leakingProgram.LeftReads g := by
  refine ⟨_, _, rfl, rfl, by decide +kernel, rfl, rfl, rfl, ?_, fun h => ?_⟩
  · exact ⟨⟨none, fun _ => ⟨_, rfl, rfl⟩, fun r hr => by cases hr⟩, rfl⟩
  · have hquery : query [] 0 leakingProgram.code = .ok _ := rfl
    have hstrays := strays_of_leftReads hquery h
    have hne : leakingProgram.source.strays leakingProgram.binds ≠ [] := by decide
    exact hne hstrays

end DuckdbMl.Sql
