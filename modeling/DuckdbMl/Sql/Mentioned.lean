import DuckdbMl.Sql.Write

/-!
# Typed SQL: a table's own expressions

A CHECK or DEFAULT clause renders with the declared table under no alias, so that its columns
are unqualified. A second traversal of the expression lists the columns it mentions; it takes
the columns of a subquery for those of the subquery's tables, and skips subqueries whole.

## Main definitions

* `mentioned`: the columns an expression is recorded to use
* `renderBare`, `ownReferences`: the text of an expression, and the columns it refers to
* `Reads name a`: the column is reached through operands outside subqueries

## Main results

* `mem_ownReferences_iff`: what a text refers to, read off the expression
* `reads_of_occurrences`: without a subquery every column is reached
* `mentioned_iff`: the recorded columns are those of the text exactly when every column of the
  table that is used anywhere is also used outside subqueries
-/

namespace DuckdbMl.Sql

/-! ### The two traversals -/

mutual

/-- The columns of an expression, after those already found. -/
def Node.mention (acc : List String) : Node → List String
  | .column _ name => if name ∈ acc then acc else name :: acc
  -- a subquery's columns are taken for those of its own tables
  | .param _ _ _ | .literal _ _ | .countStar | .existsIn _ | .inSubquery _ _ | .scalar _ => acc
  | .over f ⟨partition, order, _⟩ => ordersMention (nodesMention (f.mention acc) partition) order
  | .apply _ args => nodesMention acc args
  | .infixOp _ a b => b.mention (a.mention acc)
  | .prefixOp _ a | .postfixOp a _ | .cast a _ => a.mention acc

def nodesMention (acc : List String) : List Node → List String
  | [] => acc
  | a :: rest => nodesMention (a.mention acc) rest

def ordersMention (acc : List String) : List Order → List String
  | [] => acc
  | ⟨key, _⟩ :: rest => ordersMention (key.mention acc) rest

end

/-- The column names an expression mentions, without duplicates. -/
def mentioned (a : Node) : List String := (a.mention []).reverse

/-- The text of a CHECK or DEFAULT expression of the table bound in `scope`. -/
def renderBare (scope : ℕ) (a : Node) : Except Exn (List Fragment) := do
  let (text, _) ← render ⟨[(scope, "")], none⟩ a 0
  return text

/-- The columns that the text of a clause of the table `t` refers to without a qualifier. -/
def ownReferences (t : Table) (ps : List Fragment) : List String :=
  ((references [[⟨t, none⟩]] ps).filter (·.qualifier = none)).map Reference.name

/-! ### Columns of an expression -/

/-- The operands that are not under IN, EXISTS or a scalar subquery. -/
def Node.operandsOutsideSubqueries : Node → List Node
  | .column _ _ | .param _ _ _ | .literal _ _ | .countStar => []
  | .existsIn _ | .inSubquery _ _ | .scalar _ => []
  | .over f ⟨partition, order, _⟩ => f :: partition ++ order.map Order.key
  | .apply _ args => args
  | .infixOp _ a b => [a, b]
  | .prefixOp _ a | .postfixOp a _ | .cast a _ => [a]

/-- The expression reads the column outside subqueries and the left operands of IN. -/
inductive Reads (name : String) : Node → Prop
  | column (scope : ℕ) : Reads name (.column scope name)
  | operand {a b : Node} (hb : b ∈ a.operandsOutsideSubqueries) (h : Reads name b) : Reads name a

theorem reads_iff {name : String} {a : Node} : Reads name a ↔
    (∃ scope, a = .column scope name) ∨ ∃ b ∈ a.operandsOutsideSubqueries, Reads name b := by
  constructor
  · rintro (⟨scope⟩ | ⟨hb, h⟩)
    · exact .inl ⟨scope, rfl⟩
    · exact .inr ⟨_, hb, h⟩
  · rintro (⟨scope, rfl⟩ | ⟨b, hb, h⟩)
    · exact .column scope
    · exact .operand hb h

/-- The place is a use of the column `name` of the table `t`, which no table of a subquery around
the place hides. -/
def Place.Refers (t : Table) (name : String) (p : Place) : Prop :=
  p.use = .column t.scope name ∧ p.visible.countP (·.scope = t.scope) = 1

instance {t : Table} {name : String} {p : Place} : Decidable (p.Refers t name) := by
  unfold Place.Refers
  infer_instance

section Walks

variable {visible : List Table} {name : String}

mutual

/-- The traversal finds what is read outside subqueries. -/
theorem mem_mention_iff {acc : List String} (a : Node) :
    name ∈ a.mention acc ↔ name ∈ acc ∨ Reads name a := by
  rw [reads_iff]
  match a with
  | .column _ other =>
    by_cases ho : other ∈ acc
    · simp only [Node.mention, if_pos ho, Node.operandsOutsideSubqueries]
      constructor
      · exact .inl
      · rintro (h | ⟨scope, h⟩ | ⟨b, hb, -⟩)
        · exact h
        · cases h
          exact ho
        · cases hb
    · simp only [Node.mention, if_neg ho, Node.operandsOutsideSubqueries, List.mem_cons]
      simp [or_comm, eq_comm]
  | .param _ _ _ | .literal _ _ | .countStar =>
    simp [Node.mention, Node.operandsOutsideSubqueries]
  -- the traversal stops at the subqueries, and at the left operand of IN
  | .existsIn _ | .scalar _ | .inSubquery _ _ =>
    simp [Node.mention, Node.operandsOutsideSubqueries]
  | .apply _ args =>
    simp [Node.mention, Node.operandsOutsideSubqueries, mem_nodesMention_iff args]
  | .infixOp _ a b =>
    simp [Node.mention, Node.operandsOutsideSubqueries, mem_mention_iff b, mem_mention_iff a,
      or_assoc]
  | .prefixOp _ a => simp [Node.mention, Node.operandsOutsideSubqueries, mem_mention_iff a]
  | .postfixOp a _ => simp [Node.mention, Node.operandsOutsideSubqueries, mem_mention_iff a]
  | .cast a _ => simp [Node.mention, Node.operandsOutsideSubqueries, mem_mention_iff a]
  | .over f ⟨partition, order, _⟩ =>
    simp [Node.mention, Node.operandsOutsideSubqueries, mem_ordersMention_iff order,
      mem_nodesMention_iff partition, mem_mention_iff f, or_and_right, exists_or, or_assoc]

theorem mem_nodesMention_iff {acc : List String} (l : List Node) :
    name ∈ nodesMention acc l ↔ name ∈ acc ∨ ∃ a ∈ l, Reads name a := by
  match l with
  | [] => simp [nodesMention]
  | a :: rest =>
    simp [nodesMention, mem_nodesMention_iff rest, mem_mention_iff a, or_assoc]

theorem mem_ordersMention_iff {acc : List String} (l : List Order) :
    name ∈ ordersMention acc l ↔ name ∈ acc ∨ ∃ o ∈ l, Reads name o.key := by
  match l with
  | [] => simp [ordersMention]
  | ⟨key, _⟩ :: rest =>
    simp [ordersMention, mem_ordersMention_iff rest, mem_mention_iff key, or_assoc]

end

theorem mem_mentioned_iff (a : Node) : name ∈ mentioned a ↔ Reads name a := by
  simp [mentioned, mem_mention_iff]

theorem mem_nodesUses {p : Place} {a : Node} {l : List Node} (ha : a ∈ l)
    (hp : p ∈ a.uses visible) : p ∈ nodesUses visible l := by
  induction l with
  | nil => cases ha
  | cons b rest ih =>
    rw [nodesUses]
    rcases List.mem_cons.mp ha with rfl | ha
    · exact List.mem_append_left _ hp
    · exact List.mem_append_right _ (ih ha)

theorem mem_ordersUses {p : Place} {o : Order} {l : List Order} (ho : o ∈ l)
    (hp : p ∈ o.key.uses visible) : p ∈ ordersUses visible l := by
  induction l with
  | nil => cases ho
  | cons b rest ih =>
    obtain ⟨key, descending⟩ := b
    rw [ordersUses]
    rcases List.mem_cons.mp ho with rfl | ho
    · exact List.mem_append_left _ hp
    · exact List.mem_append_right _ (ih ho)

/-- The uses of an operand outside subqueries are those of the expression. -/
theorem uses_subset {a b : Node} (hb : b ∈ a.operandsOutsideSubqueries) :
    b.uses visible ⊆ a.uses visible := by
  intro p hp
  cases a with
  | column | param | literal | countStar => cases hb
  | existsIn | inSubquery | scalar => cases hb
  | apply name args => exact mem_nodesUses hb hp
  | infixOp op a b' =>
    rcases List.mem_pair.mp hb with rfl | rfl
    · exact List.mem_append_left _ hp
    · exact List.mem_append_right _ hp
  | prefixOp | postfixOp | cast =>
    rw [List.mem_singleton.mp hb] at hp
    exact hp
  | «over» f w =>
    obtain ⟨partition, order, frame⟩ := w
    rw [Node.uses]
    rcases List.mem_cons.mp hb with rfl | hb
    · exact List.mem_append_left _ (List.mem_append_left _ hp)
    · rcases List.mem_append.mp hb with hb | hb
      · exact List.mem_append_left _ (List.mem_append_right _ (mem_nodesUses hb hp))
      · obtain ⟨o, ho, rfl⟩ := List.mem_map.mp hb
        exact List.mem_append_right _ (mem_ordersUses ho hp)

/-- What is read outside subqueries is used where only the tables around the expression are
visible. -/
theorem Reads.exists_use {a : Node} (h : Reads name a) :
    ∃ scope, (⟨visible, .column scope name⟩ : Place) ∈ a.uses visible := by
  induction h with
  | column scope => exact ⟨scope, List.mem_singleton_self _⟩
  | operand hb _ ih =>
    obtain ⟨scope, hs⟩ := ih
    exact ⟨scope, uses_subset hb hs⟩

mutual

theorem nodup_mention {acc : List String} (h : acc.Nodup) (a : Node) : (a.mention acc).Nodup := by
  match a with
  | .column _ name =>
    rw [Node.mention]
    split
    case isTrue => exact h
    case isFalse hn => exact List.nodup_cons.mpr ⟨hn, h⟩
  | .param _ _ _ | .literal _ _ | .countStar => exact h
  | .existsIn _ | .scalar _ | .inSubquery _ _ => exact h
  | .apply _ args => exact nodup_nodesMention h args
  | .infixOp _ a b => exact nodup_mention (nodup_mention h a) b
  | .prefixOp _ a => exact nodup_mention h a
  | .postfixOp a _ => exact nodup_mention h a
  | .cast a _ => exact nodup_mention h a
  | .over f ⟨partition, order, _⟩ =>
    exact nodup_ordersMention (nodup_nodesMention (nodup_mention h f) partition) order

theorem nodup_nodesMention {acc : List String} (h : acc.Nodup) (l : List Node) :
    (nodesMention acc l).Nodup := by
  match l with
  | [] => exact h
  | a :: rest => exact nodup_nodesMention (nodup_mention h a) rest

theorem nodup_ordersMention {acc : List String} (h : acc.Nodup) (l : List Order) :
    (ordersMention acc l).Nodup := by
  match l with
  | [] => exact h
  | ⟨key, _⟩ :: rest => exact nodup_ordersMention (nodup_mention h key) rest

end

theorem nodup_mentioned (a : Node) : (mentioned a).Nodup :=
  List.nodup_reverse.mpr (nodup_mention List.nodup_nil a)

end Walks

/-! ### What a clause refers to -/

section Clause

variable {t : Table} {a : Node} {ps : List Fragment}

/-- In a clause of the table `t`, a reference is unqualified exactly when it is to `t`: the
tables of the subqueries around it have aliases. -/
theorem Reference.Bound.refers_iff {r : Reference} {inner : List (List Occurrence)}
    (h : r.Bound) (hl : r.levels = inner ++ [[⟨t, none⟩]])
    (hi : ∀ u ∈ inner.flatten, u.aliasName.isSome) (name : String) :
    r.place.Refers t name ↔ r.qualifier = none ∧ r.name = name := by
  obtain ⟨b, hb, hq⟩ := h.named
  have hlevels : r.levels.flatten = inner.flatten ++ [⟨t, none⟩] := by simp [hl]
  have hcount : r.place.visible.countP (·.scope = t.scope) =
      inner.flatten.countP (·.scope = t.scope) + 1 := by
    simp [Reference.place, hlevels, List.countP_map, Function.comp_def]
  rw [Place.Refers, hcount, Nat.add_eq_right, List.countP_eq_zero]
  rw [Reference.binder, hlevels, List.find?_append] at hb
  constructor
  · rintro ⟨huse, hnone⟩
    obtain ⟨hs, hn⟩ := Use.column.inj huse
    have hf : inner.flatten.find? (·.scope = r.scope) = none :=
      List.find?_eq_none.mpr fun u hu => hs ▸ hnone u hu
    rw [hf, Option.none_or, List.find?_singleton, if_pos (by simp [hs]), Option.some_inj] at hb
    exact ⟨by rw [← hq, ← hb], hn⟩
  · rintro ⟨hnone, hn⟩
    cases hf : inner.flatten.find? (·.scope = r.scope) with
    | some u =>
      -- a table of a subquery would have qualified the reference
      rw [hf, Option.some_or, Option.some_inj] at hb
      have hu := hi u (List.mem_of_find?_eq_some hf)
      rw [hb, hq, hnone] at hu
      cases hu
    | none =>
      rw [hf, Option.none_or, List.find?_singleton] at hb
      split at hb
      case isTrue hs =>
        have hs : t.scope = r.scope := by simpa using hs
        refine ⟨by rw [Reference.place, hs, hn], fun u hu => ?_⟩
        rw [hs]
        exact List.find?_eq_none.mp hf u hu
      case isFalse => cases hb

theorem render_of_renderBare {scope : ℕ} (h : renderBare scope a = .ok ps) :
    ∃ m, render ⟨[(scope, "")], none⟩ a 0 = .ok (ps, m) := by
  unfold renderBare at h
  cases hr : render ⟨[(scope, "")], none⟩ a 0 with
  | error e => rw [hr] at h; cases h
  | ok r =>
    obtain ⟨qs, m⟩ := r
    rw [hr] at h
    cases h
    exact ⟨m, rfl⟩

theorem emitted_of_renderBare (h : renderBare t.scope a = .ok ps) :
    ∃ m, Emitted none [[⟨t, none⟩]] (a.uses [t]) [] (Set.Ico 0 m) ps := by
  obtain ⟨m, hr⟩ := render_of_renderBare h
  exact ⟨m, (emits_of_render (fits_unaliased t 0) hr).2⟩

/-- **The columns a clause refers to** are those its expression uses, at any depth, outside the
subqueries that bind them. -/
theorem mem_ownReferences_iff (h : renderBare t.scope a = .ok ps) (name : String) :
    name ∈ ownReferences t ps ↔ ∃ p ∈ a.uses [t], p.Refers t name := by
  obtain ⟨m, he⟩ := emitted_of_renderBare h
  -- in a clause only the declared table is named without a qualifier
  have hrefers : ∀ r ∈ references [[⟨t, none⟩]] ps,
      (r.place.Refers t name ↔ r.qualifier = none ∧ r.name = name) := fun r hr => by
    obtain ⟨inner, hl, ho⟩ := levels_of_references hr
    refine (he.bound r hr).refers_iff hl (fun u hu => ?_) name
    obtain ⟨k, -, hk⟩ := he.named u (ho u hu)
    rw [hk, Option.isSome_some]
  -- the references of the text are the uses of the expression
  have hplaces : ∀ p, p ∈ a.uses [t] ∧ p.use.isColumn = true ↔
      ∃ r ∈ references [[⟨t, none⟩]] ps, r.place = p := fun p => by
    rw [← List.mem_map, he.places, columnPlaces, List.mem_filter]
  simp only [ownReferences, List.mem_map, List.mem_filter, decide_eq_true_iff]
  constructor
  · rintro ⟨r, ⟨hr, hq⟩, hn⟩
    exact ⟨r.place, ((hplaces _).mpr ⟨r, hr, rfl⟩).1, (hrefers r hr).mpr ⟨hq, hn⟩⟩
  · rintro ⟨p, hp, hpn⟩
    obtain ⟨r, hr, rfl⟩ := (hplaces p).mp ⟨hp, by rw [hpn.1, Use.isColumn]⟩
    obtain ⟨hq, hn⟩ := (hrefers r hr).mp hpn
    exact ⟨r, ⟨hr, hq⟩, hn⟩

/-- A clause renders exactly when its columns are in scope. -/
theorem exists_renderBare_iff :
    (∃ ps, renderBare t.scope a = .ok ps) ↔ ∀ p ∈ a.uses [t], p.InScope none := by
  constructor
  · rintro ⟨ps, h⟩
    obtain ⟨m, he⟩ := emitted_of_renderBare h
    exact he.inScope
  · intro h
    have hnames : (⟨[(t.scope, "")], none⟩ : Context).Names [t] := rfl
    obtain ⟨ps, m, hr⟩ := renders_render hnames h 0
    exact ⟨ps, by rw [renderBare, hr]; rfl⟩

/-- A mentioned column is one of the declared table. -/
theorem mem_ownReferences_of_mentioned (h : renderBare t.scope a = .ok ps) {name : String}
    (hn : name ∈ mentioned a) : name ∈ ownReferences t ps := by
  obtain ⟨m, he⟩ := emitted_of_renderBare h
  obtain ⟨scope, hp⟩ := @Reads.exists_use [t] _ _ ((mem_mentioned_iff a).mp hn)
  have hs : scope = t.scope := List.mem_singleton.mp (he.inScope _ hp)
  exact (mem_ownReferences_iff h name).mpr ⟨_, hp, by rw [hs], by simp⟩

/-- **What `mentioned` misses** is what is used in subqueries and left operands of IN only. -/
theorem mentioned_iff (h : renderBare t.scope a = .ok ps) :
    (∀ name, name ∈ mentioned a ↔ name ∈ ownReferences t ps) ↔
      ∀ p ∈ a.uses [t], ∀ name, p.Refers t name → Reads name a := by
  constructor
  · intro hall p hp name hpn
    exact (mem_mentioned_iff a).mp ((hall name).mpr ((mem_ownReferences_iff h name).mpr
      ⟨p, hp, hpn⟩))
  · intro hreads name
    refine ⟨mem_ownReferences_of_mentioned h, fun hr => ?_⟩
    obtain ⟨p, hp, hpn⟩ := (mem_ownReferences_iff h name).mp hr
    exact (mem_mentioned_iff a).mpr (hreads p hp name hpn)

end Clause

/-! ### Subqueries -/

theorem occurrences_windowSpec (p o : List (List Fragment)) (frame : Option String) :
    occurrences (concat " " ([listed "PARTITION BY " p, listed "ORDER BY " o,
      frame.map ([.raw ·])].reduceOption)) = occurrences p.flatten ++ occurrences o.flatten := by
  cases p <;> cases o <;> cases frame <;>
    simp [listed, occurrences, Fragment.occurrences]

theorem occurrences_ne_nil_of_renderSource {c : Context} {s : Source} {n m : ℕ}
    {ps : List Fragment} (h : renderSource c s n = .ok (ps, m)) : occurrences ps ≠ [] := by
  cases s with
  | select target scope body =>
    obtain ⟨_, list, distinct, joins, where_, groupBy, having, qualify, orderBy, limit, offset⟩ :=
      body
    simp only [renderSource, bind_eq_ok, pure_eq_ok] at h
    obtain ⟨first, _, -, aliases, _, -, _, _, -, _, _, -, _, _, -, _, _, -, _, _, -, _, _, -, _, _,
      -, rfl, -⟩ := h
    simp [occurrences, Fragment.occurrences]
  | set op left right =>
    simp only [renderSource, bind_eq_ok, pure_eq_ok] at h
    obtain ⟨a, k, ha, b, k', hb, rfl, rfl⟩ := h
    have := occurrences_ne_nil_of_renderSource ha
    simp [occurrences, Fragment.occurrences, this]

mutual

/-- In a text without tables, so without subqueries, every column is read. -/
theorem reads_of_occurrences {c : Context} {visible : List Table} {a : Node} {n m : ℕ}
    {ps : List Fragment} (h : render c a n = .ok (ps, m)) (ho : occurrences ps = []) {p : Place}
    (hp : p ∈ a.uses visible) {scope : ℕ} {name : String} (hc : p.use = .column scope name) :
    Reads name a := by
  match a with
  | .column scope' name' =>
    obtain rfl := List.mem_singleton.mp hp
    cases hc
    exact .column _
  | .param _ _ _ =>
    obtain rfl := List.mem_singleton.mp hp
    cases hc
  | .literal _ _ | .countStar => cases hp
  -- a subquery has tables
  | .existsIn s | .scalar s =>
    simp only [render, bind_eq_ok, pure_eq_ok] at h
    obtain ⟨b, k, hb, rfl, rfl⟩ := h
    simp [occurrences, Fragment.occurrences, occurrences_ne_nil_of_renderSource hb] at ho
  -- so has the right operand of IN
  | .inSubquery a s =>
    simp only [render, bind_eq_ok, pure_eq_ok] at h
    obtain ⟨a', k, ha, b, k', hb, rfl, rfl⟩ := h
    simp [occurrences, Fragment.occurrences, occurrences_ne_nil_of_renderSource hb] at ho
  | .apply name' args =>
    simp only [render, bind_eq_ok, pure_eq_ok] at h
    obtain ⟨l, k, hl, rfl, rfl⟩ := h
    obtain ⟨b, hb, hr⟩ := exists_reads_of_nodesUses hl
      (by simpa [occurrences, Fragment.occurrences] using ho) hp hc
    exact .operand hb hr
  | .infixOp op a b =>
    simp only [render, bind_eq_ok, pure_eq_ok] at h
    obtain ⟨a', k, ha, b', k', hb, rfl, rfl⟩ := h
    simp only [occurrences, Fragment.occurrences, occurrences_append, List.nil_append,
      List.append_nil, List.cons_append, List.append_eq_nil_iff] at ho
    rcases List.mem_append.mp hp with hp | hp
    · exact .operand (.head _) (reads_of_occurrences ha ho.1 hp hc)
    · exact .operand (.tail _ (.head _)) (reads_of_occurrences hb ho.2 hp hc)
  | .prefixOp op a | .postfixOp a op | .cast a op =>
    simp only [render, bind_eq_ok, pure_eq_ok] at h
    obtain ⟨a', k, ha, rfl, rfl⟩ := h
    exact .operand (List.mem_singleton_self _) (reads_of_occurrences (a := a) ha
      (by simpa [occurrences, Fragment.occurrences] using ho) hp hc)
  | .over f ⟨partition, order, frame⟩ =>
    simp only [render, bind_eq_ok, pure_eq_ok] at h
    obtain ⟨f', k, hf, p', k', hp', o, k'', ho', rfl, rfl⟩ := h
    simp only [occurrences, Fragment.occurrences, occurrences_append, List.nil_append,
      List.append_nil, List.append_eq_nil_iff, occurrences_windowSpec] at ho
    rw [Node.uses] at hp
    rcases List.mem_append.mp hp with hp | hp
    · rcases List.mem_append.mp hp with hp | hp
      · exact .operand (.head _) (reads_of_occurrences hf ho.1 hp hc)
      · obtain ⟨b, hb, hr⟩ := exists_reads_of_nodesUses hp' ho.2.1 hp hc
        exact .operand (.tail _ (List.mem_append_left _ hb)) hr
    · obtain ⟨b, hb, hr⟩ := exists_reads_of_ordersUses ho' ho.2.2 hp hc
      exact .operand (.tail _ (List.mem_append_right _ (List.mem_map_of_mem hb))) hr

theorem exists_reads_of_nodesUses {c : Context} {visible : List Table} {l : List Node} {n m : ℕ}
    {ps : List (List Fragment)} (h : renderAll c l n = .ok (ps, m))
    (ho : occurrences ps.flatten = []) {p : Place} (hp : p ∈ nodesUses visible l) {scope : ℕ}
    {name : String} (hc : p.use = .column scope name) : ∃ a ∈ l, Reads name a := by
  match l with
  | [] => cases hp
  | a :: rest =>
    simp only [renderAll, bind_eq_ok, pure_eq_ok] at h
    obtain ⟨a', k, ha, b', k', hb, rfl, rfl⟩ := h
    simp only [List.flatten_cons, occurrences_append, List.append_eq_nil_iff] at ho
    rcases List.mem_append.mp hp with hp | hp
    · exact ⟨a, .head _, reads_of_occurrences ha ho.1 hp hc⟩
    · obtain ⟨b, hb', hr⟩ := exists_reads_of_nodesUses hb ho.2 hp hc
      exact ⟨b, .tail _ hb', hr⟩

theorem exists_reads_of_ordersUses {c : Context} {visible : List Table} {l : List Order}
    {n m : ℕ} {ps : List (List Fragment)} (h : renderOrders c l n = .ok (ps, m))
    (ho : occurrences ps.flatten = []) {p : Place} (hp : p ∈ ordersUses visible l) {scope : ℕ}
    {name : String} (hc : p.use = .column scope name) : ∃ o ∈ l, Reads name o.key := by
  match l with
  | [] => cases hp
  | ⟨key, descending⟩ :: rest =>
    simp only [renderOrders, bind_eq_ok, pure_eq_ok] at h
    obtain ⟨a', k, ha, b', k', hb, rfl, rfl⟩ := h
    simp only [List.flatten_cons, occurrences_append, List.append_eq_nil_iff] at ho
    rcases List.mem_append.mp hp with hp | hp
    · exact ⟨_, .head _, reads_of_occurrences ha ho.1.1 hp hc⟩
    · obtain ⟨o, ho', hr⟩ := exists_reads_of_ordersUses hb ho.2 hp hc
      exact ⟨o, .tail _ ho', hr⟩

end

end DuckdbMl.Sql
