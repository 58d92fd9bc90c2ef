import DuckdbMl.Sql.Public

/-!
# Typed SQL: codec agreement in set operations

A set operation compares the codecs of the left-most selects of its sides. Rows of every select in
a source decode with the codecs of the left-most one.

## Main definitions

* `Source.leaves`: the selects of a source
* `Codec.decode`, `decodeRow`: what a codec makes of a value
* `Body.Selects`: the expressions that a program selects
* `Body.Lists`, `Body.Renders`: they are what the codecs and the text of the select list, in order

## Main results

* `compatible_equivalence`: compatibility is an equivalence
* `compatible_leaves`: every select of a source agrees with the left-most one
* `composed_codecs`: rows decode with the codecs of the select that produced them
-/

namespace DuckdbMl.Sql

/-- The selects of a source, left to right. -/
def Source.leaves : Source → List Body
  | .select _ _ b => [b]
  | .set _ left right => left.leaves ++ right.leaves

/-! ### Decoding -/

/-- A custom conversion: what it crosses the boundary as, and its decoding. -/
structure Custom (α : Type) where
  scalar : Scalar
  decode : Value → Except String α

/-- A decoded value: NULL, that of a scalar, or one of a custom codec. -/
inductive Decoded (α : Type)
  | null
  | base (v : Value)
  | custom (a : α)

/-- What reading a value can fail with. -/
inductive DecodeError
  | typeMismatch (expected : Scalar)
  | null
  | rejected (message : String)

def Value.scalar : Value → Scalar
  | .bool _ => .bool
  | .int8 _ => .int8
  | .int16 _ => .int16
  | .int32 _ => .int32
  | .int64 _ => .int64
  | .float32 _ => .float32
  | .float64 _ => .float64
  | .string _ => .string
  | .blob _ => .blob
  | .date _ => .date
  | .timestampS _ => .timestampS
  | .timestampMs _ => .timestampMs
  | .timestampUs _ => .timestampUs
  | .timestampNs _ => .timestampNs
  | .timestampTz _ => .timestampTz

section Decode

variable {α : Type} (customs : ℕ → Custom α)

def Plan.decode (p : Plan) (v : Value) : Except DecodeError (Decoded α) :=
  match p with
  | .identity scalar => if v.scalar = scalar then .ok (.base v) else .error (.typeMismatch scalar)
  | .plan id _ =>
    if v.scalar = (customs id).scalar then
      match (customs id).decode v with
      | .ok a => .ok (.custom a)
      | .error e => .error (.rejected e)
    else .error (.typeMismatch (customs id).scalar)

/-- A value read through a codec; `none` is NULL. -/
def Codec.decode (c : Codec) (v : Option Value) : Except DecodeError (Decoded α) :=
  match c, v with
  | .nonNull _, none => .error .null
  | .nullable _, none => .ok .null
  | .nonNull p, some v | .nullable p, some v => p.decode customs v

/-- A row read through codecs; rows of another length do not occur. -/
def decodeRow : List Codec → List (Option Value) → Except DecodeError (List (Decoded α))
  | c :: codecs, v :: row => do
    let a ← c.decode customs v
    let rest ← decodeRow codecs row
    return a :: rest
  | _, _ => .ok []

end Decode

/-! ### Compatible codecs -/

section Compatible

theorem Scalar.name_injective : Function.Injective Scalar.name := by
  intro s t
  cases s <;> cases t <;> decide

theorem Plan.same_iff {p q : Plan} : p.same q = true ↔
    (∃ s, p = .identity s ∧ q = .identity s) ∨ ∃ i s t, p = .plan i s ∧ q = .plan i t := by
  cases p with
  | identity s =>
    cases q with
    | identity t =>
      rw [Plan.same, beq_iff_eq]
      constructor
      · intro h
        exact .inl ⟨s, rfl, by rw [Scalar.name_injective h]⟩
      · rintro (⟨_, ⟨⟩, ⟨⟩⟩ | ⟨_, _, _, ⟨⟩, _⟩)
        rfl
    | plan j t =>
      refine ⟨fun h => absurd h Bool.false_ne_true, ?_⟩
      rintro (⟨_, _, ⟨⟩⟩ | ⟨_, _, _, ⟨⟩, _⟩)
  | plan i s =>
    cases q with
    | identity t =>
      refine ⟨fun h => absurd h Bool.false_ne_true, ?_⟩
      rintro (⟨_, ⟨⟩, _⟩ | ⟨_, _, _, _, ⟨⟩⟩)
    | plan j t =>
      rw [Plan.same, beq_iff_eq]
      constructor
      · rintro rfl
        exact .inr ⟨i, s, t, rfl, rfl⟩
      · rintro (⟨_, ⟨⟩, _⟩ | ⟨_, _, _, ⟨⟩, ⟨⟩⟩)
        rfl

theorem Plan.same_equivalence : Equivalence fun p q : Plan => p.same q = true where
  refl p := by
    cases p with
    | identity s => exact beq_self_eq_true s.name
    | plan i s => exact beq_self_eq_true i
  symm h := by
    rcases Plan.same_iff.mp h with ⟨s, rfl, rfl⟩ | ⟨i, s, t, rfl, rfl⟩
    · exact h
    · exact beq_self_eq_true i
  trans h h' := by
    rcases Plan.same_iff.mp h with ⟨s, rfl, rfl⟩ | ⟨i, s, t, rfl, rfl⟩
    · exact h'
    · rcases Plan.same_iff.mp h' with ⟨_, ⟨⟩, _⟩ | ⟨_, _, _, ⟨⟩, rfl⟩
      exact beq_self_eq_true i

/-- Compatible codecs are both nullable or both not, with plans that are the same. -/
theorem compatible_iff {c d : Codec} : compatible c d = true ↔
    ∃ p q, p.same q = true ∧
      (c = .nonNull p ∧ d = .nonNull q ∨ c = .nullable p ∧ d = .nullable q) := by
  cases c <;> cases d <;> simp [compatible]

/-- **Compatibility is an equivalence.** -/
theorem compatible_equivalence : Equivalence fun c d : Codec => compatible c d = true where
  refl c := by cases c <;> exact Plan.same_equivalence.refl _
  symm h := by
    obtain ⟨p, q, hs, ⟨rfl, rfl⟩ | ⟨rfl, rfl⟩⟩ := compatible_iff.mp h <;>
      exact Plan.same_equivalence.symm hs
  trans h h' := by
    obtain ⟨p, q, hs, ⟨rfl, rfl⟩ | ⟨rfl, rfl⟩⟩ := compatible_iff.mp h <;>
      obtain ⟨_, r, hs', ⟨⟨⟩, rfl⟩ | ⟨⟨⟩, rfl⟩⟩ := compatible_iff.mp h' <;>
      exact Plan.same_equivalence.trans hs hs'

variable {α : Type} {customs : ℕ → Custom α}

theorem Plan.decode_eq {p q : Plan} (h : p.same q = true) :
    p.decode customs = q.decode customs := by
  rcases Plan.same_iff.mp h with ⟨s, rfl, rfl⟩ | ⟨i, s, t, rfl, rfl⟩ <;> rfl

/-- Compatible codecs convert alike. -/
theorem Codec.decode_eq {c d : Codec} (h : compatible c d = true) :
    c.decode customs = d.decode customs := by
  obtain ⟨p, q, hs, ⟨rfl, rfl⟩ | ⟨rfl, rfl⟩⟩ := compatible_iff.mp h <;>
    funext v <;> cases v <;> simp only [Codec.decode, Plan.decode_eq hs]

/-- Column lists agree, position by position. -/
def Agree (a b : List Codec) : Prop := List.Forall₂ (fun c d => compatible c d = true) a b

theorem Agree.refl (a : List Codec) : Agree a a :=
  List.forall₂_same.mpr fun c _ => compatible_equivalence.refl c

theorem Agree.trans {a b c : List Codec} (h : Agree a b) (h' : Agree b c) : Agree a c := by
  induction h generalizing c with
  | nil => exact h'
  | cons hab _ ih =>
    cases h' with
    | cons hbc h' => exact .cons (compatible_equivalence.trans hab hbc) (ih h')

theorem agree_of_compatibleFields {a b : List Codec} (h : compatibleFields a b = true) :
    Agree a b := by
  rw [compatibleFields, Bool.and_eq_true, beq_iff_eq, List.all_eq_true] at h
  exact List.forall₂_iff_zip.mpr ⟨h.1, fun hm => h.2 _ hm⟩

/-- Agreeing codecs decode rows alike. -/
theorem Agree.decodeRow_eq {a b : List Codec} (h : Agree a b) :
    decodeRow customs a = decodeRow customs b := by
  induction h with
  | nil => rfl
  | cons hc _ ih =>
    funext row
    cases row with
    | nil => rfl
    | cons v row => rw [decodeRow, decodeRow, Codec.decode_eq hc, ih]

end Compatible

/-! ### The selects of a source -/

/-- The program selects `exprs`. Grouping and joins keep what their callbacks select. -/
inductive Body.Selects : Body → List Expr → Prop
  | select {c : Clauses} {exprs : List Expr} {b : Body} (h : select c exprs = .ok b) :
      Body.Selects b exprs
  | selectOver {c : Clauses} {qualify : Option Expr} {exprs : List Expr} {b : Body}
      (h : selectOver c qualify exprs = .ok b) : Body.Selects b exprs
  | aggregate {w : Option Expr} {exprs : List Expr} {b : Body} (h : aggregate w exprs = .ok b) :
      Body.Selects b exprs
  | groupBy {keys exprs : List Expr} {f : List Expr → Except Exn Body} {b b' : Body}
      (hf : f keys = .ok b') (hb : Body.Selects b' exprs) (h : Sql.groupBy keys f = .ok b) :
      Body.Selects b exprs
  | joined {kind : JoinKind} {t : TableDef} {scope : ℕ} {on : Option Node} {exprs : List Expr}
      {b : Body} (hb : Body.Selects b exprs) : Body.Selects (joined kind t scope on b) exprs

/-- The codecs and the list of a select are those of the expressions, in order. -/
structure Body.Lists (b : Body) (exprs : List Expr) : Prop where
  columns : b.columns = exprs.map Expr.codec
  list : b.list = exprs.map Expr.node

/-- The text of a select lists a text of each expression, in order. -/
def Body.Renders (b : Body) (exprs : List Expr) : Prop :=
  ∀ (c : Context) (target : String) (scope n m : ℕ) (l : List Fragment),
    renderSource c (.select target scope b) n = .ok (l, m) →
    ∃ (c' : Context) (texts : List (List Fragment)) (rest : List Fragment),
      List.Forall₂ (fun e text => ∃ k k', render c' e.node k = .ok (text, k')) exprs texts ∧
        l = [.select (.raw ("SELECT " ++ if b.distinct then "DISTINCT " else "") ::
          concat ", " texts ++ .raw " FROM " :: rest)]

section Leaves

variable {b : Body} {exprs : List Expr}

theorem lists_of_select {c : Clauses} (h : select c exprs = .ok b) : b.Lists exprs := by
  rw [select] at h
  cases hl : nonNegative "limit" c.limit with
  | error e =>
    rw [hl] at h
    cases h
  | ok u =>
    cases ho : nonNegative "offset" c.offset with
    | error e =>
      rw [hl, ho] at h
      cases h
    | ok u =>
      rw [hl, ho] at h
      obtain rfl := Except.ok.inj h
      exact ⟨rfl, rfl⟩

theorem lists_of_selectOver {c : Clauses} {qualify : Option Expr}
    (h : selectOver c qualify exprs = .ok b) : b.Lists exprs := by
  rw [selectOver] at h
  cases hs : select { c with orderBy := [] } exprs with
  | error e =>
    rw [hs] at h
    cases h
  | ok b' =>
    rw [hs] at h
    obtain rfl := Except.ok.inj h
    exact ⟨(lists_of_select hs).columns, (lists_of_select hs).list⟩

theorem lists_of_aggregate {w : Option Expr} (h : aggregate w exprs = .ok b) : b.Lists exprs := by
  rw [aggregate] at h
  split at h
  · cases h
  · obtain rfl := Except.ok.inj h
    exact ⟨rfl, rfl⟩

theorem Body.Lists.groupBy {keys : List Expr} {f : List Expr → Except Exn Body} {b' : Body}
    (hb : b'.Lists exprs) (hf : f keys = .ok b') (h : Sql.groupBy keys f = .ok b) :
    b.Lists exprs := by
  rw [Sql.groupBy, hf] at h
  obtain rfl := Except.ok.inj h
  exact ⟨hb.columns, hb.list⟩

/-- **The codecs of a select are those of what the program selects.** -/
theorem Body.Selects.lists (h : b.Selects exprs) : b.Lists exprs := by
  induction h with
  | select h => exact lists_of_select h
  | selectOver h => exact lists_of_selectOver h
  | aggregate h => exact lists_of_aggregate h
  | groupBy hf _ h ih => exact ih.groupBy hf h
  | joined _ ih => exact ⟨ih.columns, ih.list⟩

theorem Body.Public.exists_selects {env : Env} {b : Body} (hb : b.Public env) :
    ∃ exprs, b.Selects exprs := by
  match hb with
  | .select _ _ _ _ h => exact ⟨_, .select h⟩
  | .selectOver _ _ _ _ _ h => exact ⟨_, .selectOver h⟩
  | .aggregate _ _ h => exact ⟨_, .aggregate h⟩
  | .groupBy _ hf hb h =>
    obtain ⟨exprs, hs⟩ := hb.exists_selects
    exact ⟨exprs, .groupBy hf hs h⟩
  | .join _ _ _ hb =>
    obtain ⟨exprs, hs⟩ := hb.exists_selects
    exact ⟨exprs, .joined hs⟩
  | .crossJoin _ hb =>
    obtain ⟨exprs, hs⟩ := hb.exists_selects
    exact ⟨exprs, .joined hs⟩

theorem forall₂_of_renderAll {c : Context} {exprs : List Expr} {n m : ℕ}
    {texts : List (List Fragment)}
    (h : renderAll c (exprs.map Expr.node) n = .ok (texts, m)) :
    List.Forall₂ (fun e text => ∃ k k', render c e.node k = .ok (text, k')) exprs texts := by
  induction exprs generalizing n texts with
  | nil =>
    obtain ⟨rfl, rfl⟩ := pure_eq_ok.mp h
    exact .nil
  | cons e rest ih =>
    simp only [List.map_cons, renderAll, bind_eq_ok, pure_eq_ok] at h
    obtain ⟨text, k, he, texts, k', hr, rfl, rfl⟩ := h
    exact .cons ⟨n, k, he⟩ (ih hr)

theorem Body.Lists.renders (h : b.Lists exprs) : b.Renders exprs := by
  intro c target scope n m l hl
  obtain ⟨columns, list, distinct, joins, where_, group, having, qualify, order, limit, offset⟩ := b
  obtain rfl := h.list
  simp only [renderSource, bind_eq_ok, pure_eq_ok] at hl
  obtain ⟨first, k₁, _, aliases, k₂, _, texts, k₃, hlist, joined, k₄, _, where', k₅, _, group',
    k₆, _, having', k₇, _, qualify', k₈, _, order', k₉, _, rfl, rfl⟩ := hl
  refine ⟨_, texts, .table ⟨⟨scope, target⟩, some first⟩ :: (joined ++ (where' ++
    ((listed " GROUP BY " group').getD [] ++ (having' ++ (qualify' ++
      ((listed " ORDER BY " order').getD [] ++ (number "LIMIT" limit ++
        number "OFFSET" offset))))))), forall₂_of_renderAll hlist, ?_⟩
  simp only [List.cons_append, List.append_assoc]

theorem setOperation_eq_ok {op : String} {left right s : Source}
    (h : setOperation op left right = .ok s) :
    s = .set op left right ∧ Agree left.leftmost.columns right.leftmost.columns := by
  rw [setOperation] at h
  split at h
  case isTrue => cases h
  case isFalse hc => exact ⟨(Except.ok.inj h).symm, agree_of_compatibleFields (not_not.mp hc)⟩

/-- **Every select of a source agrees with the left-most one.** -/
theorem compatible_leaves {env : Env} {s : Source} (hs : s.Public env) :
    ∀ b ∈ s.leaves, Agree s.leftmost.columns b.columns ∧ b.Public env := by
  match hs with
  | .fromTable _ hb =>
    intro b' hm
    rw [List.mem_singleton.mp hm]
    exact ⟨.refl _, hb⟩
  | .setOperation _ hl hr h =>
    obtain ⟨rfl, hagree⟩ := setOperation_eq_ok h
    intro b hm
    rcases List.mem_append.mp hm with hm | hm
    · exact compatible_leaves hl b hm
    · obtain ⟨hb, hpublic⟩ := compatible_leaves hr b hm
      exact ⟨hagree.trans hb, hpublic⟩

end Leaves

/-! ### Reading through a source -/

section Reading

variable {s : Source} {b : Body} {c : Codec}

/-- The first columns of agreeing lists. -/
theorem Agree.head {a d : List Codec} (h : Agree a d) (hc : c ∈ d.head?) :
    ∃ c', a.head? = some c' ∧ compatible c' c = true := by
  cases h with
  | nil => cases hc
  | cons hcc _ =>
    obtain rfl := Option.some_inj.mp hc
    exact ⟨_, rfl, hcc⟩

theorem compatible_of_in {x e : Expr} (h : in_ x s = .ok e) {c' : Codec}
    (hc : s.leftmost.columns.head? = some c') : compatible x.codec c' = true := by
  rw [in_] at h
  cases hcols : s.leftmost.columns with
  | nil =>
    rw [hcols] at hc
    cases hc
  | cons column rest =>
    rw [hcols] at h hc
    obtain rfl := Option.some_inj.mp hc
    dsimp only at h
    split at h
    case isTrue => cases h
    case isFalse hn => exact not_not.mp hn

/-- A scalar subquery has the plan of its column, as nullable. -/
theorem codec_of_scalar {e : Expr} (h : scalar s = .ok e ∨ nullScalar s = .ok e) {c' : Codec}
    (hc : s.leftmost.columns.head? = some c') : e.codec = .nullable c'.plan := by
  cases hcols : s.leftmost.columns with
  | nil =>
    rw [hcols] at hc
    cases hc
  | cons column rest =>
    rw [hcols] at hc
    obtain rfl := Option.some_inj.mp hc
    -- the two constructors refuse a column of the other nullability
    rcases h with h | h
    · rw [scalar, hcols] at h
      cases column with
      | nonNull plan =>
        obtain rfl := Except.ok.inj h
        rfl
      | nullable plan => cases h
    · rw [nullScalar, hcols] at h
      cases column with
      | nonNull plan => cases h
      | nullable plan =>
        obtain rfl := Except.ok.inj h
        rfl

/-- **Codecs agree throughout a composed source.** What the program selects is what the codecs and
the text of each select list, in order. These codecs are compatible, position by position, with
those of the left-most select. So a row of any select decodes with the codecs of the left-most one
as with those of the expressions that made its values; the left of IN converts as the column of
every select does; and a value of a scalar subquery is read by the conversion of the select that
produced it. -/
theorem composed_codecs {env : Env} {s : Source} (hs : s.Public env) : ∀ b ∈ s.leaves,
    (∃ exprs, b.Selects exprs) ∧ ∀ exprs, b.Selects exprs →
      b.Lists exprs ∧ b.Renders exprs ∧
      Agree s.leftmost.columns (exprs.map Expr.codec) ∧
      (∀ (α : Type) (customs : ℕ → Custom α),
        decodeRow customs s.leftmost.columns = decodeRow customs (exprs.map Expr.codec)) ∧
      ∀ column ∈ exprs.head?,
        (∀ x e, in_ x s = .ok e → ∀ (α : Type) (customs : ℕ → Custom α),
          x.codec.decode customs = column.codec.decode customs) ∧
        ∀ e, scalar s = .ok e ∨ nullScalar s = .ok e →
          ∀ (α : Type) (customs : ℕ → Custom α) (v : Value),
            e.codec.decode customs (some v) = column.codec.decode customs (some v) := by
  intro b hb
  -- each leaf agrees with the left-most one, and its codecs are those of what it selects
  obtain ⟨hagree, hpublic⟩ := compatible_leaves hs b hb
  refine ⟨hpublic.exists_selects, fun exprs hexprs => ?_⟩
  have hlists := hexprs.lists
  rw [hlists.columns] at hagree
  refine ⟨hlists, hlists.renders, hagree, fun α customs => hagree.decodeRow_eq,
    fun column hcolumn => ?_⟩
  -- for `in_` and `scalar` the first column is the one that counts
  have hhead : column.codec ∈ (exprs.map Expr.codec).head? := by
    rw [List.head?_map]
    exact Option.mem_map_of_mem Expr.codec hcolumn
  obtain ⟨c', hc', hcc⟩ := hagree.head hhead
  refine ⟨fun x e he α customs => ?_, fun e he α customs v => ?_⟩
  · exact Codec.decode_eq (compatible_equivalence.trans (compatible_of_in he hc') hcc)
  · rw [codec_of_scalar he hc']
    obtain ⟨p, q, hsame, ⟨rfl, hq⟩ | ⟨rfl, hq⟩⟩ := compatible_iff.mp hcc <;> rw [hq] <;>
      exact congrFun (Plan.decode_eq hsame) v

end Reading

/-- The identifier and the name of a user. -/
def userColumns (scope : ℕ) : List Expr :=
  [⟨.column scope "id", of .int64⟩, ⟨.column scope "name", of .string⟩]

/-- The users, selected in a scope. -/
def selectUsers (scope : ℕ) : Source :=
  .select (targetOf users) scope ⟨[of .int64, of .string],
    [.column scope "id", .column scope "name"], false, [], none, [], none, none, [], none, none⟩

/-- Callbacks that get the users, in any scope. -/
def usersEnv : Env where
  column e := ∃ scope, e ∈ userColumns scope
  table t _ := t = users
  join _ _ _ _ := False

theorem public_selectUsers (scope : ℕ) : (selectUsers scope).Public usersEnv := by
  refine .fromTable rfl (@Body.Public.select usersEnv {} (userColumns scope) _ ?_ ?_ ?_ ?_ rfl)
  · exact fun e he => .column ⟨scope, he⟩
  · exact fun e he => by cases he
  · exact fun e he => by cases he
  · exact fun o ho => by cases ho

/-- The right side of a union lists the columns of its own list, which decode as those of the
left side. -/
theorem composed_codecs_selectUsers :
    (selectUsers 2).leftmost.Lists (userColumns 2) ∧
      Agree (selectUsers 1).leftmost.columns [of .int64, of .string] :=
  have hc : compatibleFields [of .int64, of .string] [of .int64, of .string] = true := by decide
  have h := (composed_codecs (@Source.Public.setOperation usersEnv "UNION ALL" (selectUsers 1)
    (selectUsers 2) _ (by decide) (public_selectUsers 1) (public_selectUsers 2)
    (if_neg (not_not.mpr hc)))) (selectUsers 2).leftmost (.tail _ (.head _))
  have h := h.2 (userColumns 2) (@Body.Selects.select {} (userColumns 2) _ rfl)
  ⟨h.1, h.2.2.1⟩

end DuckdbMl.Sql
