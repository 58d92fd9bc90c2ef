import DuckdbMl.Sql.Agreement
import DuckdbMl.Sql.Apart

/-!
# Typed SQL: what programs build

The constructors answer expressions of a few shapes, and keep what the scopes of a program were
taken for.

## Main definitions

* `Body.Bound`, `WindowSpec.Bound`: selects and windows of columns that callbacks got

## Main results

* `coalesce_eq_ok`, `compareAs_eq_ok`, `shiftedOr_eq_ok`, …: what a constructor answers when it does
* `Expr.Public.bound`, `Source.Public.bound`: what programs build has the scopes that were taken
  for it
-/

namespace DuckdbMl.Sql

/-! ### What the constructors answer -/

section Constructors

variable {a b default x e : Expr} {op name : String} {w : WindowSpec} {codec : Codec} {n : ℤ}

theorem value_eq_ok {plan : Plan} {encoded : Except String Value}
    (h : value plan encoded = .ok e) : ∃ v, e = ⟨scalarNode v, .nonNull plan⟩ := by
  cases encoded with
  | ok v => exact ⟨v, (Except.ok.inj h).symm⟩
  | error _ => cases h

theorem scalarNode_eq (v : Value) : ∃ sql constant, scalarNode v = .literal sql constant := by
  cases v <;> exact ⟨_, _, rfl⟩

theorem coalesce_eq_ok (h : coalesce a default = .ok e) :
    e = ⟨.apply "coalesce" [a.node, default.node], default.codec⟩ := by
  rw [coalesce] at h
  split at h
  · cases h
  · exact (Except.ok.inj h).symm

theorem checked_eq_ok {u : Unit} (h : checked a b = .ok u) :
    compatible a.codec b.codec = true := by
  rw [checked] at h
  split at h
  case isTrue => cases h
  case isFalse hc => exact not_not.mp hc

/-- Compatible codecs are both non-null or both nullable. -/
theorem nonNull_of_compatible {c d : Codec} (h : compatible c d = true) (hc : c.NonNull) :
    d.NonNull := by
  obtain ⟨p, q, -, ⟨rfl, rfl⟩ | ⟨rfl, rfl⟩⟩ := compatible_iff.mp h
  · exact ⟨q, rfl⟩
  · obtain ⟨plan, hp⟩ := hc
    cases hp

theorem compareAs_eq_ok (h : compareAs codec op a b = .ok e) :
    compatible a.codec b.codec = true ∧ e = ⟨.infixOp op a.node b.node, codec⟩ := by
  rw [compareAs] at h
  cases hc : checked a b with
  | error _ => rw [hc] at h; cases h
  | ok _ =>
    rw [hc] at h
    exact ⟨checked_eq_ok hc, (Except.ok.inj h).symm⟩

theorem arith_eq_ok (h : arith op a b = .ok e) :
    compatible a.codec b.codec = true ∧
      e = ⟨.cast (.infixOp op a.node b.node) a.codec.sqlType, a.codec⟩ := by
  rw [arith] at h
  cases hc : checked a b with
  | error _ => rw [hc] at h; cases h
  | ok _ =>
    rw [hc] at h
    exact ⟨checked_eq_ok hc, (Except.ok.inj h).symm⟩

theorem nullDivision_eq_ok (h : nullDivision op a b = .ok e) :
    e = ⟨.cast (.infixOp op a.node b.node) a.codec.sqlType, .nullable a.codec.plan⟩ := by
  rw [nullDivision] at h
  cases hc : checked a b with
  | error _ => rw [hc] at h; cases h
  | ok _ =>
    rw [hc] at h
    exact (Except.ok.inj h).symm

theorem ntile_eq_ok (h : ntile n w = .ok e) :
    e = overWindow "ntile" [integerNode n] w (of .int64) := by
  rw [ntile] at h
  cases hp : positive "ntile" n with
  | error _ => rw [hp] at h; cases h
  | ok _ =>
    rw [hp] at h
    exact (Except.ok.inj h).symm

theorem countLiteral_eq_ok {l : Node} (h : countLiteral name n = .ok l) : l = integerNode n := by
  rw [countLiteral] at h
  split at h
  · cases h
  · exact (Except.ok.inj h).symm

theorem shifted_eq_ok (h : shifted name n a w codec = .ok e) :
    e = overWindow name [a.node, integerNode n] w codec := by
  rw [shifted] at h
  cases hl : countLiteral name n with
  | error _ => rw [hl] at h; cases h
  | ok l =>
    rw [hl] at h
    rw [← countLiteral_eq_ok hl]
    exact (Except.ok.inj h).symm

theorem shiftedOr_eq_ok (h : shiftedOr name n default a w = .ok e) :
    compatible a.codec default.codec = true ∧
      e = overWindow name [a.node, integerNode n, default.node] w a.codec := by
  rw [shiftedOr] at h
  cases hc : checked a default with
  | error _ => rw [hc] at h; cases h
  | ok _ =>
    cases hl : countLiteral name n with
    | error _ => rw [hc, hl] at h; cases h
    | ok l =>
      rw [hc, hl] at h
      rw [← countLiteral_eq_ok hl]
      exact ⟨checked_eq_ok hc, (Except.ok.inj h).symm⟩

theorem nthValue_eq_ok (h : nthValue n a w = .ok e) :
    e = overWindow "nth_value" [a.node, integerNode n] w (.nullable a.codec.plan) := by
  rw [nthValue, nthValueAs] at h
  cases hp : positive "nth_value" n with
  | error _ => rw [hp] at h; cases h
  | ok _ =>
    cases hl : countLiteral "nth_value" n with
    | error _ => rw [hp, hl] at h; cases h
    | ok l =>
      rw [hp, hl] at h
      rw [← countLiteral_eq_ok hl]
      exact (Except.ok.inj h).symm

theorem in_eq_ok {s : Source} (h : in_ x s = .ok e) :
    e = ⟨.inSubquery x.node s, .nullable (.identity .bool)⟩ := by
  rw [in_] at h
  split at h
  · split at h
    · cases h
    · exact (Except.ok.inj h).symm
  · exact (Except.ok.inj h).symm

/-- Scalar subqueries are nullable. -/
theorem scalar_eq_ok {s : Source} (h : scalar s = .ok e ∨ nullScalar s = .ok e)
    (hc : s.leftmost.columns.length = 1) :
    e.node = .scalar s ∧ ∃ plan, e.codec = .nullable plan := by
  obtain ⟨c, hcolumns⟩ := List.length_eq_one_iff.mp hc
  have hcodec := codec_of_scalar h (by rw [hcolumns]; rfl)
  refine ⟨?_, _, hcodec⟩
  rcases h with h | h
  · rw [scalar, hcolumns] at h
    cases c with
    | nonNull plan => exact congrArg Expr.node (Except.ok.inj h).symm
    | nullable plan => cases h
  · rw [nullScalar, hcolumns] at h
    cases c with
    | nonNull plan => cases h
    | nullable plan => exact congrArg Expr.node (Except.ok.inj h).symm

end Constructors

/-! ### Programs build what their scopes were taken for -/

section Bound

variable {binds : ℕ → Binder}

/-- What callbacks got are columns. -/
theorem exists_of_got {e : Expr} (h : Got binds e) :
    ∃ scope name codec, e = ⟨.column scope name, codec⟩ := by
  cases h with
  | row _ he =>
    obtain ⟨c, -, rfl⟩ := List.mem_map.mp he
    exact ⟨_, _, _, rfl⟩
  | onRow _ _ he =>
    obtain ⟨c, -, rfl⟩ := List.mem_map.mp he
    exact ⟨_, _, _, rfl⟩
  | @outer s t o _ ho =>
    obtain ⟨c, -, rfl⟩ := List.mem_map.mp ho
    exact ⟨s, c.1, _, congrArg (Expr.mk · _) (Outer.lift_node _)⟩

theorem nodesBound_map {exprs : List Expr} (h : ∀ e ∈ exprs, e.node.Bound binds) :
    nodesBound binds (exprs.map Expr.node) := by
  induction exprs with
  | nil => trivial
  | cons e rest ih =>
    exact ⟨h e (List.mem_cons_self ..), ih fun e he => h e (List.mem_cons_of_mem _ he)⟩

theorem ordersBound_of {orders : List Order} (h : ∀ o ∈ orders, o.key.Bound binds) :
    ordersBound binds orders := by
  induction orders with
  | nil => trivial
  | cons o rest ih =>
    obtain ⟨key, descending⟩ := o
    exact ⟨h _ (List.mem_cons_self ..), ih fun o ho => h o (List.mem_cons_of_mem _ ho)⟩

theorem clauseBound_map {e : Option Expr} (h : ∀ a ∈ e, a.node.Bound binds) :
    clauseBound binds (e.map Expr.node) := by
  cases e with
  | none => trivial
  | some a => exact h a rfl

/-- The clauses of a select, and its joins. -/
structure Body.Bound (binds : ℕ → Binder) (b : Body) : Prop where
  list : nodesBound binds b.list
  joins : joinsBound binds b.joins
  where_ : clauseBound binds b.where_
  groupBy : nodesBound binds b.groupBy
  having : clauseBound binds b.having
  qualify : clauseBound binds b.qualify
  orderBy : ordersBound binds b.orderBy

def WindowSpec.Bound (binds : ℕ → Binder) (w : WindowSpec) : Prop :=
  nodesBound binds w.partition ∧ ordersBound binds w.order

theorem select_eq_ok {c : Clauses} {exprs : List Expr} {b : Body} (h : select c exprs = .ok b) :
    b = ⟨exprs.map Expr.codec, exprs.map Expr.node, c.distinct, [], c.where_.map Expr.node, [],
      c.having.map Expr.node, none, c.orderBy, c.limit, c.offset⟩ := by
  rw [select] at h
  cases hl : nonNegative "limit" c.limit with
  | error _ => rw [hl] at h; cases h
  | ok _ =>
    cases ho : nonNegative "offset" c.offset with
    | error _ => rw [hl, ho] at h; cases h
    | ok _ =>
      rw [hl, ho] at h
      exact (Except.ok.inj h).symm

theorem selectOver_eq_ok {c : Clauses} {qualify : Option Expr} {exprs : List Expr} {b : Body}
    (h : selectOver c qualify exprs = .ok b) :
    b = ⟨exprs.map Expr.codec, exprs.map Expr.node, c.distinct, [], c.where_.map Expr.node, [],
      c.having.map Expr.node, qualify.map Expr.node, c.orderBy, c.limit, c.offset⟩ := by
  rw [selectOver] at h
  cases hs : select { c with orderBy := [] } exprs with
  | error _ => rw [hs] at h; cases h
  | ok b' =>
    rw [hs] at h
    obtain rfl := select_eq_ok hs
    exact (Except.ok.inj h).symm

theorem bound_of_overWindow {name : String} {args : List Node} {w : WindowSpec} {codec : Codec}
    (ha : nodesBound binds args) (hw : w.Bound binds) :
    (overWindow name args w codec).node.Bound binds := by
  obtain ⟨partition, order, frame⟩ := w
  exact ⟨ha, hw.1, hw.2⟩

mutual

theorem Expr.Public.bound {e : Expr} (h : e.Public (envOf binds)) : e.node.Bound binds := by
  match h with
  | .column h =>
    obtain ⟨scope, name, codec, rfl⟩ := exists_of_got h
    exact ⟨codec, h⟩
  | .param _ | .bool _ | .int8 _ | .int16 _ | .int32 _ | .int64 _ | .float32 _ | .float64 _
  | .string _ | .countStar => trivial
  | .value h =>
    obtain ⟨v, rfl⟩ := value_eq_ok h
    obtain ⟨sql, constant, hv⟩ := scalarNode_eq v
    change (scalarNode v).Bound binds
    rw [hv]
    trivial
  | .nullable he => exact he.bound
  | .coalesce ha hd h =>
    obtain rfl := coalesce_eq_ok h
    exact ⟨ha.bound, hd.bound, trivial⟩
  | .isNull he | .isTrue he | .not he => exact he.bound
  | .compare _ _ ha hb h | .nullCompare _ _ ha hb h | .like _ ha hb h =>
    obtain ⟨-, rfl⟩ := compareAs_eq_ok h
    exact ⟨ha.bound, hb.bound⟩
  | .arith _ _ ha hb h =>
    obtain ⟨-, rfl⟩ := arith_eq_ok h
    exact ⟨ha.bound, hb.bound⟩
  | .nullDivision _ ha hb h =>
    obtain rfl := nullDivision_eq_ok h
    exact ⟨ha.bound, hb.bound⟩
  | .count he | .extreme _ he | .nullExtreme _ _ he | .sum he | .nullSum _ he | .avg he =>
    exact ⟨he.bound, trivial⟩
  | .sumOver he hw | .nullSumOver _ he hw =>
    have hover : (overWindow "sum" [_] _ (of .int64)).node.Bound binds :=
      bound_of_overWindow ⟨he.bound, trivial⟩ hw.bound
    exact hover
  | .avgOver he hw =>
    have hover : (overWindow "avg" [_] _ (of .float64)).node.Bound binds :=
      bound_of_overWindow ⟨he.bound, trivial⟩ hw.bound
    exact hover
  | .ranking _ hw => exact bound_of_overWindow trivial hw.bound
  | .ntile hw h =>
    obtain rfl := ntile_eq_ok h
    exact bound_of_overWindow ⟨trivial, trivial⟩ hw.bound
  | .shifted _ _ ha hw h =>
    obtain rfl := shifted_eq_ok h
    exact bound_of_overWindow ⟨ha.bound, trivial, trivial⟩ hw.bound
  | .shiftedOr _ hd ha hw h =>
    obtain ⟨-, rfl⟩ := shiftedOr_eq_ok h
    exact bound_of_overWindow ⟨ha.bound, trivial, hd.bound, trivial⟩ hw.bound
  | .firstValue he hw | .lastValue he hw | .countOver he hw | .extremeOver _ he hw =>
    exact bound_of_overWindow ⟨he.bound, trivial⟩ hw.bound
  | .nthValue ha hw h =>
    obtain rfl := nthValue_eq_ok h
    exact bound_of_overWindow ⟨ha.bound, trivial, trivial⟩ hw.bound
  | .countStarOver (w := ⟨partition, order, frame⟩) hw =>
    exact ⟨trivial, hw.bound.1, hw.bound.2⟩
  | .exists_ hs => exact hs.bound
  | .in_ hx hs _ h =>
    obtain rfl := in_eq_ok h
    exact ⟨hx.bound, hs.bound⟩
  | .scalar hs hc h =>
    rw [(scalar_eq_ok (.inl h) hc).1]
    exact hs.bound
  | .nullScalar hs hc h =>
    rw [(scalar_eq_ok (.inr h) hc).1]
    exact hs.bound

theorem Order.Public.bound {o : Order} (h : o.Public (envOf binds)) : o.key.Bound binds := by
  match h with
  | .asc he | .desc he => exact he.bound

theorem WindowSpec.Public.bound {w : WindowSpec} (h : w.Public (envOf binds)) :
    w.Bound binds := by
  match h with
  | .window hp ho _ =>
    exact ⟨nodesBound_map fun e he => (hp e he).bound, ordersBound_of fun o h => (ho o h).bound⟩

theorem Body.Public.bound {b : Body} (h : b.Public (envOf binds)) : b.Bound binds := by
  match h with
  | .select he hw hh ho h =>
    obtain rfl := select_eq_ok h
    exact ⟨nodesBound_map fun e hm => (he e hm).bound, trivial,
      clauseBound_map fun e hm => (hw e hm).bound, trivial,
      clauseBound_map fun e hm => (hh e hm).bound, trivial,
      ordersBound_of fun o hm => (ho o hm).bound⟩
  | .selectOver he hw hh hq ho h =>
    obtain rfl := selectOver_eq_ok h
    exact ⟨nodesBound_map fun e hm => (he e hm).bound, trivial,
      clauseBound_map fun e hm => (hw e hm).bound, trivial,
      clauseBound_map fun e hm => (hh e hm).bound,
      clauseBound_map fun e hm => (hq e hm).bound,
      ordersBound_of fun o hm => (ho o hm).bound⟩
  | .aggregate he hw h =>
    rw [aggregate] at h
    split at h
    · cases h
    · obtain rfl := Except.ok.inj h
      exact ⟨nodesBound_map fun e hm => (he e hm).bound, trivial,
        clauseBound_map fun e hm => (hw e hm).bound, trivial, trivial, trivial, trivial⟩
  | .groupBy hk hf hb h =>
    rw [Sql.groupBy, hf] at h
    obtain rfl := Except.ok.inj h
    exact { hb.bound with groupBy := nodesBound_map fun e hm => (hk e hm).bound }
  | .join _ ht ho hb =>
    exact { hb.bound with joins := ⟨⟨_, ht.1⟩, ht.2, ho.bound, hb.bound.joins⟩ }
  | .crossJoin ht hb =>
    exact { hb.bound with joins := ⟨⟨_, ht.1⟩, ht.2, trivial, hb.bound.joins⟩ }

theorem Source.Public.bound {s : Source} (h : s.Public (envOf binds)) : s.Bound binds := by
  match h with
  | .fromTable (b := ⟨_, _, _, _, _, _, _, _, _, _, _⟩) ht hb =>
    have hbody := hb.bound
    exact ⟨⟨_, ht⟩, hbody.list, hbody.joins, hbody.where_, hbody.groupBy, hbody.having,
      hbody.qualify, hbody.orderBy⟩
  | .setOperation _ hl hr h =>
    obtain ⟨rfl, -⟩ := setOperation_eq_ok h
    exact ⟨hl.bound, hr.bound⟩

end

end Bound

end DuckdbMl.Sql
