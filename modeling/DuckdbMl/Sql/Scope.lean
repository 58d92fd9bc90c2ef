import DuckdbMl.Sql.Render
import Mathlib.Data.List.Nodup
import Mathlib.Data.List.ReduceOption
import Mathlib.Data.Set.Lattice
import Mathlib.Order.Interval.Set.Basic

/-!
# Typed SQL: what a rendered text denotes

## Main definitions

* `Fits c levels n`: the context names the tables of the enclosing selects apart
* `Emitted`: what fragments rendered from an expression consist of

## Main results

* `emits_of_renderSource`: rendering emits the columns of the source, each naming the table
  that bound it
* `renders_renderSource`: a source renders when its columns and parameters are in scope
* `emitted_of_query`, `exists_query`: the text of a query, and when there is one
* `query_scoped`: a query renders exactly when its columns and parameters are in scope, and its
  text then denotes what was written
-/

namespace DuckdbMl.Sql

/-! ### The monad -/

section Render

variable {α β : Type} {n m : ℕ}

theorem bind_eq_ok {x : Render α} {f : α → Render β} {r : β × ℕ} :
    (x >>= f) n = .ok r ↔ ∃ a k, x n = .ok (a, k) ∧ f a k = .ok r := by
  change Except.bind (x n) (fun p => f p.1 p.2) = .ok r ↔ _
  cases h : x n with
  | error e => simp [Except.bind]
  | ok p =>
    obtain ⟨a, k⟩ := p
    simp [Except.bind]

theorem pure_eq_ok {a b : α} : (pure a : Render α) n = .ok (b, m) ↔ a = b ∧ n = m := by
  change Except.ok (a, n) = .ok (b, m) ↔ _
  simp

theorem freshAlias_eq_ok {a : String} : freshAlias n = .ok (a, m) ↔ aliasOf n = a ∧ n + 1 = m := by
  simp [freshAlias]

theorem foreign_ne_ok {r : α × ℕ} : (foreign : Render α) n ≠ .ok r := by
  simp [foreign]

/-- The joined tables of a select take the next aliases, in order. -/
theorem freshAliases_eq (joins : List Join) (n : ℕ) :
    freshAliases joins n =
      .ok ((List.range' n joins.length).map aliasOf, n + joins.length) := by
  induction joins generalizing n with
  | nil => rfl
  | cons j rest ih =>
    change Except.bind (freshAliases rest (n + 1)) _ = _
    rw [ih]
    change Except.ok (aliasOf n :: (List.range' (n + 1) rest.length).map aliasOf,
      n + 1 + rest.length) = _
    simp [List.range'_succ, Nat.add_comm, Nat.add_left_comm]

end Render

theorem aliasOf_injective : Function.Injective aliasOf := by
  intro i j h
  have hs : Nat.toDigits 10 i = Nat.toDigits 10 j := by
    simpa [aliasOf, Nat.toList_repr] using congrArg String.toList h
  rw [← Nat.ofDigitChars_ten_toDigits (n := i), hs, Nat.ofDigitChars_ten_toDigits]

theorem aliasOf_ne_empty (n : ℕ) : aliasOf n ≠ "" := by
  intro h
  have := congrArg String.toList h
  simp [aliasOf] at this

/-! ### Separators leave what a text consists of -/

section Separators

variable {levels : List (List Occurrence)} {sep : String} (l : List (List Fragment))

@[simp] theorem references_concat :
    references levels (concat sep l) = references levels l.flatten := by
  fun_induction concat sep l with
  | case1 => rfl
  | case2 a => simp
  | case3 a rest h ih => simp [ih, references, Fragment.references]

@[simp] theorem occurrences_concat : occurrences (concat sep l) = occurrences l.flatten := by
  fun_induction concat sep l with
  | case1 => rfl
  | case2 a => simp
  | case3 a rest h ih => simp [ih, occurrences, Fragment.occurrences]

@[simp] theorem tables_concat : tables (concat sep l) = tables l.flatten := by
  fun_induction concat sep l with
  | case1 => rfl
  | case2 a => simp
  | case3 a rest h ih => simp [ih, tables]

@[simp] theorem references_listed :
    references levels ((listed sep l).getD []) = references levels l.flatten := by
  cases l <;> simp [listed, references, Fragment.references]

@[simp] theorem occurrences_listed :
    occurrences ((listed sep l).getD []) = occurrences l.flatten := by
  cases l <;> simp [listed, occurrences, Fragment.occurrences]

@[simp] theorem tables_listed : tables ((listed sep l).getD []) = tables l.flatten := by
  cases l <;> simp [listed, tables]

end Separators

/-! ### What rendering emits -/

/-- The context gives the tables of the enclosing selects their aliases; these differ from one
another and from those that the counter still gives. -/
structure Fits (c : Context) (levels : List (List Occurrence)) (n : ℕ) : Prop where
  aliases : c.aliases = levels.flatten.map fun t => (t.scope, t.aliasName.getD "")
  nodup : (levels.flatten.map Occurrence.aliasName).Nodup
  named : ∀ t ∈ levels.flatten, ∀ a, t.aliasName = some a → a ≠ "" ∧ ∀ k ≥ n, a ≠ aliasOf k

/-- The reference carries the alias of the table that bound it, and no other table in scope has
that alias. -/
structure Reference.Bound (r : Reference) : Prop where
  nodup : (r.levels.flatten.map Occurrence.aliasName).Nodup
  named : ∃ t, r.binder = some t ∧ t.aliasName = r.qualifier

/-- **What fragments consist of**: the columns at the places `uses`, all in scope and bound, the
tables `own` in their own clauses, and tables with different aliases numbered within `S`. -/
structure Emitted (params : Option ℕ) (levels : List (List Occurrence)) (uses : List Place)
    (own : List Occurrence) (S : Set ℕ) (ps : List Fragment) : Prop where
  inScope : ∀ p ∈ uses, p.InScope params
  places : (references levels ps).map Reference.place = columnPlaces uses
  bound : ∀ r ∈ references levels ps, r.Bound
  tables : tables ps = own
  named : ∀ t ∈ occurrences ps, ∃ k ∈ S, t.aliasName = some (aliasOf k)
  nodup : ((occurrences ps).map Occurrence.aliasName).Nodup

section Emitted

variable {params : Option ℕ} {levels : List (List Occurrence)} {uses uses' : List Place}
  {own own' : List Occurrence} {S T : Set ℕ} {ps qs : List Fragment}

theorem Fits.mono {c : Context} {n m : ℕ} (h : Fits c levels n) (hm : n ≤ m) :
    Fits c levels m :=
  ⟨h.aliases, h.nodup, fun t ht a ha =>
    ⟨(h.named t ht a ha).1, fun k hk => (h.named t ht a ha).2 k (hm.trans hk)⟩⟩

theorem Emitted.nil : Emitted params levels [] [] ∅ [] where
  inScope := by simp
  places := rfl
  bound := by simp [references]
  tables := rfl
  named := by simp [occurrences]
  nodup := List.nodup_nil

theorem Emitted.raw {text : String} (h : Emitted params levels uses own S ps) :
    Emitted params levels uses own S (.raw text :: ps) where
  inScope := h.inScope
  places := h.places
  bound := h.bound
  tables := h.tables
  named := h.named
  nodup := h.nodup

theorem Emitted.mono (h : Emitted params levels uses own S ps) (hS : S ⊆ T) :
    Emitted params levels uses own T ps :=
  ⟨h.inScope, h.places, h.bound, h.tables,
    fun t ht => (h.named t ht).imp fun _ hk => ⟨hS hk.1, hk.2⟩, h.nodup⟩

theorem Emitted.append (hp : Emitted params levels uses own S ps)
    (hq : Emitted params levels uses' own' T qs) (hd : ∀ k ∈ S, k ∉ T) :
    Emitted params levels (uses ++ uses') (own ++ own') (S ∪ T) (ps ++ qs) where
  inScope p h := (List.mem_append.mp h).elim (hp.inScope p) (hq.inScope p)
  places := by
    rw [references_append, List.map_append, hp.places, hq.places, columnPlaces, columnPlaces,
      columnPlaces, List.filter_append]
  bound r h := by
    rw [references_append] at h
    exact (List.mem_append.mp h).elim (hp.bound r) (hq.bound r)
  tables := by rw [tables_append, hp.tables, hq.tables]
  named t h := by
    rw [occurrences_append] at h
    rcases List.mem_append.mp h with h | h
    · exact (hp.named t h).imp fun _ hk => ⟨.inl hk.1, hk.2⟩
    · exact (hq.named t h).imp fun _ hk => ⟨.inr hk.1, hk.2⟩
  -- the two parts have their aliases from different numbers of the counter
  nodup := by
    rw [occurrences_append, List.map_append]
    refine hp.nodup.append hq.nodup fun a ha hb => ?_
    obtain ⟨t, ht, rfl⟩ := List.mem_map.mp ha
    obtain ⟨u, hu, he⟩ := List.mem_map.mp hb
    obtain ⟨i, hi, hti⟩ := hp.named t ht
    obtain ⟨j, hj, huj⟩ := hq.named u hu
    rw [hti, huj, Option.some_inj] at he
    exact hd i hi (aliasOf_injective he ▸ hj)

/-- Fragments of the same columns and tables. -/
theorem Emitted.congr (h : Emitted params levels uses own S ps)
    (hr : references levels qs = references levels ps) (ho : occurrences qs = occurrences ps)
    (ht : Sql.tables qs = Sql.tables ps) : Emitted params levels uses own S qs :=
  ⟨h.inScope, hr ▸ h.places, hr ▸ h.bound, ht ▸ h.tables, ho ▸ h.named, ho ▸ h.nodup⟩

theorem Emitted.concat {sep : String} {l : List (List Fragment)}
    (h : Emitted params levels uses own S l.flatten) :
    Emitted params levels uses own S (concat sep l) :=
  h.congr (references_concat l) (occurrences_concat l) (tables_concat l)

theorem Emitted.listed (keyword : String) {l : List (List Fragment)}
    (h : Emitted params levels uses own S l.flatten) :
    Emitted params levels uses own S ((listed keyword l).getD []) :=
  h.congr (references_listed l) (occurrences_listed l) (tables_listed l)

/-- Text that is neither a column nor a table, at the end. -/
theorem Emitted.suffix {text : String} (h : Emitted params levels uses own S ps) :
    Emitted params levels uses own S (ps ++ [.raw text]) :=
  h.congr (by simp [references, Fragment.references])
    (by simp [occurrences, Fragment.occurrences]) (by simp [Sql.tables])

theorem Emitted.number (keyword : String) (o : Option ℤ)
    (h : Emitted params levels uses own S ps) :
    Emitted params levels uses own S (ps ++ number keyword o) := by
  cases o with
  | none => simpa [Sql.number] using h
  | some n => exact h.suffix

theorem Emitted.windowSpec {p o : List (List Fragment)} (frame : Option String)
    (h : Emitted params levels uses own S (p.flatten ++ o.flatten)) :
    Emitted params levels uses own S (Sql.concat " " ([Sql.listed "PARTITION BY " p,
      Sql.listed "ORDER BY " o, frame.map ([.raw ·])].reduceOption)) := by
  refine h.congr ?_ ?_ ?_
  all_goals
    cases p <;> cases o <;> cases frame <;>
      simp [Sql.listed, references, occurrences, Sql.tables, Fragment.references,
        Fragment.occurrences]

/-- A table of the clauses at hand. -/
theorem Emitted.table {t : Table} {k : ℕ} :
    Emitted params levels [] [⟨t, some (aliasOf k)⟩] {k}
      [.table ⟨t, some (aliasOf k)⟩] where
  inScope := by simp
  places := rfl
  bound := by simp [references, Fragment.references]
  tables := rfl
  named := by simp [occurrences, Fragment.occurrences]
  nodup := by simp [occurrences, Fragment.occurrences]

/-- The clauses of a select are read with its own tables in front. -/
theorem Emitted.select (h : Emitted params (own :: levels) uses own S ps) :
    Emitted params levels uses [] S [.select ps] where
  inScope := h.inScope
  places := by simpa [references, Fragment.references, h.tables] using h.places
  bound := by simpa [references, Fragment.references, h.tables] using h.bound
  tables := rfl
  named := by simpa [occurrences, Fragment.occurrences] using h.named
  nodup := by simpa [occurrences, Fragment.occurrences] using h.nodup

/-- The tables in scope, without their aliases. -/
def visible (levels : List (List Occurrence)) : List Table :=
  levels.flatten.map Occurrence.toTable

theorem Fits.lookup {c : Context} {n : ℕ} (h : Fits c levels n) (scope : ℕ) :
    c.aliases.lookup scope =
      (levels.flatten.find? (·.scope = scope)).map fun t => t.aliasName.getD "" := by
  rw [h.aliases]
  induction levels.flatten with
  | nil => rfl
  | cons t rest ih =>
    by_cases ht : t.scope = scope
    · simp [ht]
    · have : (scope == t.scope) = false := by simpa using Ne.symm ht
      simp [List.lookup_cons, ht, this, ih]

/-- A column that renders is in scope, and carries the alias of its table. -/
theorem Emitted.column {c : Context} {n : ℕ} (h : Fits c levels n) {scope : ℕ} {name : String}
    {t : Occurrence} (ht : levels.flatten.find? (·.scope = scope) = some t) :
    Emitted params levels [⟨visible levels, .column scope name⟩] [] ∅
      [.column t.aliasName name scope] where
  inScope p hp := by
    rw [List.mem_singleton.mp hp]
    have hs : t.scope = scope := by simpa using List.find?_some ht
    exact List.mem_map.mpr ⟨t.toTable, List.mem_map_of_mem (List.mem_of_find?_eq_some ht), hs⟩
  places := rfl
  bound r hr := by
    rw [show r = _ from List.mem_singleton.mp hr]
    exact ⟨h.nodup, t, ht, rfl⟩
  tables := rfl
  named := by simp [occurrences, Fragment.occurrences]
  nodup := List.nodup_nil

theorem Emitted.param {scope : ℕ} {text : String} :
    Emitted (some scope) levels [⟨visible levels, .param scope⟩] [] ∅ [.raw text] where
  inScope p hp := by
    rw [List.mem_singleton.mp hp]
    rfl
  places := rfl
  bound := by simp [references, Fragment.references]
  tables := rfl
  named := by simp [occurrences, Fragment.occurrences]
  nodup := List.nodup_nil

end Emitted

/-- What a computation that takes the counter from `n` to `m` emits. -/
def Emits (params : Option ℕ) (levels : List (List Occurrence)) (uses : List Place)
    (own : List Occurrence) (n m : ℕ) (ps : List Fragment) : Prop :=
  n ≤ m ∧ Emitted params levels uses own (Set.Ico n m) ps

section Emits

variable {params : Option ℕ} {levels : List (List Occurrence)} {uses uses' : List Place}
  {own : List Occurrence} {n k m : ℕ} {ps qs : List Fragment}

theorem Emits.nil : Emits params levels [] [] n n [] :=
  ⟨le_rfl, Emitted.nil.mono (Set.empty_subset _)⟩

/-- What follows in the text and in the count, and has no tables of its own. -/
theorem Emits.append (hp : Emits params levels uses own n k ps)
    (hq : Emits params levels uses' [] k m qs) :
    Emits params levels (uses ++ uses') own n m (ps ++ qs) := by
  rw [← List.append_nil own]
  refine ⟨hp.1.trans hq.1, (hp.2.append hq.2 fun i hi hj => ?_).mono fun i hi => ?_⟩
  · exact absurd (hi.2.trans_le hj.1) (lt_irrefl i)
  · rcases hi with hi | hi
    · exact ⟨hi.1, hi.2.trans_le hq.1⟩
    · exact ⟨hp.1.trans hi.1, hi.2⟩

theorem Emits.raw {text : String} (h : Emits params levels uses own n m ps) :
    Emits params levels uses own n m (.raw text :: ps) :=
  ⟨h.1, h.2.raw⟩

theorem Emits.suffix {text : String} (h : Emits params levels uses own n m ps) :
    Emits params levels uses own n m (ps ++ [.raw text]) :=
  ⟨h.1, h.2.suffix⟩

theorem Emits.concat {sep : String} {l : List (List Fragment)}
    (h : Emits params levels uses own n m l.flatten) :
    Emits params levels uses own n m (concat sep l) :=
  ⟨h.1, h.2.concat⟩

theorem Emits.listed (keyword : String) {l : List (List Fragment)}
    (h : Emits params levels uses own n m l.flatten) :
    Emits params levels uses own n m ((listed keyword l).getD []) :=
  ⟨h.1, h.2.listed keyword⟩

end Emits

/-- The joined tables under the aliases from `a` on. -/
def joinedTables : List Join → ℕ → List Occurrence
  | [], _ => []
  | j :: rest, a => ⟨j.table, some (aliasOf a)⟩ :: joinedTables rest (a + 1)

theorem map_toTable_joinedTables (joins : List Join) (a : ℕ) :
    (joinedTables joins a).map Occurrence.toTable = joins.map Join.table := by
  induction joins generalizing a with
  | nil => rfl
  | cons j rest ih => simp [joinedTables, ih]

theorem aliases_joinedTables (joins : List Join) (a : ℕ) :
    (joinedTables joins a).map (fun t => (t.scope, t.aliasName.getD "")) =
      (joins.map Join.scope).zip ((List.range' a joins.length).map aliasOf) := by
  induction joins generalizing a with
  | nil => rfl
  | cons j rest ih => simp [joinedTables, ih, Join.table, List.range'_succ]

theorem aliasName_joinedTables (joins : List Join) (a : ℕ) :
    (joinedTables joins a).map Occurrence.aliasName =
      (List.range' a joins.length).map fun k => some (aliasOf k) := by
  induction joins generalizing a with
  | nil => rfl
  | cons j rest ih => simp [joinedTables, ih, List.range'_succ]

/-- **Inside a select** the context still tells the tables apart: its own have the aliases that
the counter has just given. -/
theorem Fits.select {c : Context} {levels : List (List Occurrence)} {n : ℕ} (h : Fits c levels n)
    (t : Table) (joins : List Join) :
    Fits { c with aliases := (t.scope, aliasOf n) ::
        (joins.map Join.scope).zip ((List.range' (n + 1) joins.length).map aliasOf) ++ c.aliases }
      ((⟨t, some (aliasOf n)⟩ :: joinedTables joins (n + 1)) :: levels)
      (n + 1 + joins.length) where
  aliases := by simp [h.aliases, aliases_joinedTables]
  nodup := by
    -- the tables of the select take the next numbers
    have hown : ((List.range' n (joins.length + 1)).map fun k => some (aliasOf k)).Nodup :=
      (List.nodup_range' ..).map fun i j hij => aliasOf_injective (Option.some.inj hij)
    rw [List.flatten_cons, List.map_append, List.map_cons, aliasName_joinedTables,
      ← List.map_cons (f := fun k => some (aliasOf k)), ← List.range'_succ]
    refine hown.append h.nodup fun a ha hb => ?_
    obtain ⟨k, hk, rfl⟩ := List.mem_map.mp ha
    obtain ⟨u, hu, he⟩ := List.mem_map.mp hb
    exact (h.named u hu _ he).2 k (List.mem_range'_1.mp hk).1 rfl
  named u hu a ha := by
    rw [List.flatten_cons, List.mem_append] at hu
    rcases hu with hu | hu
    · have hm := List.mem_map_of_mem (f := Occurrence.aliasName) hu
      rw [List.map_cons, aliasName_joinedTables, ← List.map_cons (f := fun k => some (aliasOf k)),
        ← List.range'_succ, ha] at hm
      -- which the counter does not give again
      obtain ⟨i, hi, he⟩ := List.mem_map.mp hm
      obtain rfl := Option.some.inj he
      refine ⟨aliasOf_ne_empty i, fun k hk hik => ?_⟩
      have := (List.mem_range'_1.mp hi).2
      have := aliasOf_injective hik
      omega
    · exact ⟨(h.named u hu a ha).1, fun k hk => (h.named u hu a ha).2 k (by omega)⟩

/-- The tables in scope in the clauses of a select. -/
theorem visible_select (t : Table) (joins : List Join) (n : ℕ) (levels : List (List Occurrence)) :
    visible ((⟨t, some (aliasOf n)⟩ :: joinedTables joins (n + 1)) :: levels) =
      t :: joins.map Join.table ++ visible levels := by
  simp [visible, map_toTable_joinedTables]

/-! ### Rendering an expression -/

mutual

theorem emits_of_render {c : Context} {levels : List (List Occurrence)} {n m : ℕ}
    {ps : List Fragment} {a : Node} (hf : Fits c levels n) (h : render c a n = .ok (ps, m)) :
    Emits c.params levels (a.uses (visible levels)) [] n m ps := by
  match a with
  | .column scope name =>
    rw [render, hf.lookup] at h
    cases ht : levels.flatten.find? (·.scope = scope) with
    | none => simp [ht, foreign] at h
    | some t =>
      have he : Emits c.params levels _ [] n n [.column t.aliasName name scope] :=
        ⟨le_rfl, (Emitted.column hf ht).mono (Set.empty_subset _)⟩
      have hn := hf.named t (List.mem_of_find?_eq_some ht)
      cases ha : t.aliasName with
      | none =>
        simp only [ht, ha, Option.map_some, Option.getD_none, if_pos, pure_eq_ok] at h
        obtain ⟨rfl, rfl⟩ := h
        rwa [ha] at he
      | some q =>
        -- only an absent alias reads as the empty one
        simp only [ht, ha, Option.map_some, Option.getD_some, if_neg (hn q ha).1,
          pure_eq_ok] at h
        obtain ⟨rfl, rfl⟩ := h
        rwa [ha] at he
  | .param scope index sqlType =>
    simp only [render] at h
    split at h
    case isTrue => exact absurd h foreign_ne_ok
    case isFalse hp =>
      obtain ⟨rfl, rfl⟩ := pure_eq_ok.mp h
      rw [Decidable.not_not.mp hp]
      exact ⟨le_rfl, Emitted.param.mono (Set.empty_subset _)⟩
  | .literal sql constant =>
    obtain ⟨rfl, rfl⟩ := pure_eq_ok.mp h
    exact Emits.nil.raw
  | .apply name args => 
    simp only [render, bind_eq_ok, pure_eq_ok] at h
    obtain ⟨args', k, hargs, rfl, rfl⟩ := h
    exact (emits_of_renderAll hf hargs).concat.raw.suffix
  | .infixOp op a b =>
    simp only [render, bind_eq_ok, pure_eq_ok] at h
    obtain ⟨a', k, ha, b', k', hb, rfl, rfl⟩ := h
    have ha := emits_of_render hf ha
    exact (ha.raw.append (emits_of_render (hf.mono ha.1) hb).raw).suffix
  | .prefixOp op a =>
    simp only [render, bind_eq_ok, pure_eq_ok] at h
    obtain ⟨a', k, ha, rfl, rfl⟩ := h
    exact (emits_of_render hf ha).raw.suffix
  | .postfixOp a op =>
    simp only [render, bind_eq_ok, pure_eq_ok] at h
    obtain ⟨a', k, ha, rfl, rfl⟩ := h
    exact (emits_of_render hf ha).raw.suffix
  | .cast a sqlType =>
    simp only [render, bind_eq_ok, pure_eq_ok] at h
    obtain ⟨a', k, ha, rfl, rfl⟩ := h
    exact (emits_of_render hf ha).raw.suffix
  | .countStar =>
    obtain ⟨rfl, rfl⟩ := pure_eq_ok.mp h
    exact Emits.nil.raw
  | .existsIn s =>
    simp only [render, bind_eq_ok, pure_eq_ok] at h
    obtain ⟨s', k, hs, rfl, rfl⟩ := h
    exact (emits_of_renderSource hf hs).raw.suffix
  | .inSubquery a s =>
    simp only [render, bind_eq_ok, pure_eq_ok] at h
    obtain ⟨a', k, ha, s', k', hs, rfl, rfl⟩ := h
    have ha := emits_of_render hf ha
    exact (ha.raw.append (emits_of_renderSource (hf.mono ha.1) hs).raw).suffix
  | .scalar s =>
    simp only [render, bind_eq_ok, pure_eq_ok] at h
    obtain ⟨s', k, hs, rfl, rfl⟩ := h
    exact (emits_of_renderSource hf hs).raw.suffix
  | .over f ⟨partition, order, frame⟩ =>
    simp only [render, bind_eq_ok, pure_eq_ok] at h
    obtain ⟨f', k, hf', partition', k', hp, order', k'', ho, rfl, rfl⟩ := h
    have hf' := emits_of_render hf hf'
    have hp := emits_of_renderAll (hf.mono hf'.1) hp
    have ho := emits_of_renderOrders (hf.mono (hf'.1.trans hp.1)) ho
    rw [Node.uses, List.append_assoc]
    have hspec := hp.append ho
    have hw : Emits c.params levels _ [] k k'' _ := ⟨hspec.1, hspec.2.windowSpec frame⟩
    exact (hf'.append hw.raw).suffix

theorem emits_of_renderAll {c : Context} {levels : List (List Occurrence)} {n m : ℕ}
    {l : List (List Fragment)} {as : List Node} (hf : Fits c levels n)
    (h : renderAll c as n = .ok (l, m)) :
    Emits c.params levels (nodesUses (visible levels) as) [] n m l.flatten := by
  match as with
  | [] =>
    obtain ⟨rfl, rfl⟩ := pure_eq_ok.mp h
    exact .nil
  | a :: rest =>
    simp only [renderAll, bind_eq_ok, pure_eq_ok] at h
    obtain ⟨a', k, ha, rest', k', hr, rfl, rfl⟩ := h
    have ha := emits_of_render hf ha
    exact ha.append (emits_of_renderAll (hf.mono ha.1) hr)

theorem emits_of_renderOrders {c : Context} {levels : List (List Occurrence)} {n m : ℕ}
    {l : List (List Fragment)} {orders : List Order} (hf : Fits c levels n)
    (h : renderOrders c orders n = .ok (l, m)) :
    Emits c.params levels (ordersUses (visible levels) orders) [] n m l.flatten := by
  match orders with
  | [] =>
    obtain ⟨rfl, rfl⟩ := pure_eq_ok.mp h
    exact .nil
  | ⟨key, descending⟩ :: rest =>
    simp only [renderOrders, bind_eq_ok, pure_eq_ok] at h
    obtain ⟨a', k, ha, rest', k', hr, rfl, rfl⟩ := h
    have ha := emits_of_render hf ha
    exact ha.suffix.append (emits_of_renderOrders (hf.mono ha.1) hr)

theorem emits_of_renderClause {c : Context} {levels : List (List Occurrence)} {n m : ℕ}
    {ps : List Fragment} {keyword : String} {o : Option Node} (hf : Fits c levels n)
    (h : renderClause c keyword o n = .ok (ps, m)) :
    Emits c.params levels (clauseUses (visible levels) o) [] n m ps := by
  match o with
  | none =>
    obtain ⟨rfl, rfl⟩ := pure_eq_ok.mp h
    exact .nil
  | some a =>
    simp only [renderClause, bind_eq_ok, pure_eq_ok] at h
    obtain ⟨a', k, ha, rfl, rfl⟩ := h
    exact (emits_of_render hf ha).raw

/-- The JOIN clauses emit their tables too, whose aliases the counter gave before. -/
theorem emitted_of_renderJoins {c : Context} {levels : List (List Occurrence)} {n m a : ℕ}
    {ps : List Fragment} {joins : List Join}
    (hf : Fits c levels n) (ha : a + joins.length ≤ n)
    (h : renderJoins c joins ((List.range' a joins.length).map aliasOf) n = .ok (ps, m)) :
    n ≤ m ∧ Emitted c.params levels (joinsUses (visible levels) joins) (joinedTables joins a)
      (Set.Ico a (a + joins.length) ∪ Set.Ico n m) ps := by
  match joins with
  | [] =>
    obtain ⟨rfl, rfl⟩ := pure_eq_ok.mp h
    exact ⟨le_rfl, Emitted.nil.mono (Set.empty_subset _)⟩
  | ⟨kind, target, scope, on⟩ :: rest =>
    simp only [List.length_cons, List.range'_succ, List.map_cons, renderJoins, bind_eq_ok,
      pure_eq_ok] at h
    obtain ⟨on', k, ho, rest', k', hr, rfl, rfl⟩ := h
    have ho := emits_of_renderClause hf ho
    rw [List.length_cons] at ha
    have hk : n ≤ k := ho.1
    have hr := emitted_of_renderJoins (hf.mono hk) (by omega) hr
    have hm : k ≤ k' := hr.1
    refine ⟨hk.trans hm, ?_⟩
    -- the table, whose alias was given before, and then its condition
    have hon := (Emitted.table (t := ⟨scope, target⟩) (k := a)).append ho.2 fun i hi hj => by
      obtain rfl := Set.mem_singleton_iff.mp hi
      have := hj.1
      omega
    have hall := hon.append hr.2 fun i hi hj => by
      simp only [Set.mem_union, Set.mem_singleton_iff, Set.mem_Ico] at hi hj
      omega
    refine (hall.mono fun i hi => ?_).raw
    simp only [Set.mem_union, Set.mem_singleton_iff, Set.mem_Ico, List.length_cons] at hi ⊢
    omega

theorem emits_of_renderSource {c : Context} {levels : List (List Occurrence)} {n m : ℕ}
    {ps : List Fragment} {s : Source} (hf : Fits c levels n)
    (h : renderSource c s n = .ok (ps, m)) :
    Emits c.params levels (s.uses (visible levels)) [] n m ps := by
  match s with
  | .select target scope ⟨_, list, distinct, joins, where_, groupBy, having, qualify, orderBy,
      limit, offset⟩ =>
    simp only [renderSource, bind_eq_ok, pure_eq_ok, freshAlias_eq_ok, freshAliases_eq,
      Except.ok.injEq, Prod.mk.injEq] at h
    obtain ⟨_, _, ⟨rfl, rfl⟩, _, _, ⟨rfl, rfl⟩, list', k₁, hl, joined, k₂, hj, where', k₃, hw,
      groupBy', k₄, hg, having', k₅, hh, qualify', k₆, hq, orderBy', k₇, ho, rfl, rfl⟩ := h
    let own : List Occurrence :=
      ⟨⟨scope, target⟩, some (aliasOf n)⟩ :: joinedTables joins (n + 1)
    have hf' := hf.select ⟨scope, target⟩ joins
    have hl := emits_of_renderAll hf' hl
    have hk₁ : n + 1 + joins.length ≤ k₁ := hl.1
    have hj := emitted_of_renderJoins (hf'.mono hk₁) hk₁ hj
    have hk₁₂ : k₁ ≤ k₂ := hj.1
    have hk₂ := hk₁.trans hk₁₂
    have hw := emits_of_renderClause (hf'.mono hk₂) hw
    have hk₃ := hk₂.trans hw.1
    have hg := emits_of_renderAll (hf'.mono hk₃) hg
    have hk₄ := hk₃.trans hg.1
    have hh := emits_of_renderClause (hf'.mono hk₄) hh
    have hk₅ := hk₄.trans hh.1
    have hq := emits_of_renderClause (hf'.mono hk₅) hq
    have ho := emits_of_renderOrders (hf'.mono (hk₅.trans hq.1)) ho
    -- the select list and the FROM clause, which holds the tables
    have hfrom := (Emitted.table (t := ⟨scope, target⟩) (k := n)).append hj.2 fun i hi hj => by
      simp only [Set.mem_union, Set.mem_singleton_iff, Set.mem_Ico] at hi hj
      omega
    have hstart : Emits c.params (own :: levels)
        (nodesUses (visible (own :: levels)) list ++ joinsUses (visible (own :: levels)) joins)
        own n k₂ (.raw ("SELECT " ++ if distinct then "DISTINCT " else "") :: concat ", " list' ++
          .raw " FROM " :: .table ⟨⟨scope, target⟩, some (aliasOf n)⟩ :: joined) := by
      refine ⟨by omega, (hl.2.concat.raw.append hfrom.raw fun i hi hj => ?_).mono fun i hi => ?_⟩
      · simp only [Set.mem_union, Set.mem_singleton_iff, Set.mem_Ico] at hi hj
        omega
      · simp only [Set.mem_union, Set.mem_singleton_iff, Set.mem_Ico] at hi ⊢
        omega
    have hclauses := ((((hstart.append hw).append (hg.listed " GROUP BY ")).append hh).append
      hq).append (ho.listed " ORDER BY ")
    have hsel := ((hclauses.2.number "LIMIT" limit).number "OFFSET" offset).select
    rw [Source.uses, ← visible_select]
    exact ⟨hclauses.1, hsel⟩
  | .set op left right =>
    simp only [renderSource, bind_eq_ok, pure_eq_ok] at h
    obtain ⟨a', k, ha, b', k', hb, rfl, rfl⟩ := h
    have ha := emits_of_renderSource hf ha
    exact (ha.raw.append (emits_of_renderSource (hf.mono ha.1) hb).raw).suffix

end

/-! ### A query in scope renders -/

/-- The computation succeeds, whatever the counter. -/
def Renders {α : Type} (x : Render α) : Prop := ∀ n, ∃ a m, x n = .ok (a, m)

section Renders

variable {α β : Type}

theorem Renders.pure {a : α} : Renders (pure a) := fun n => ⟨a, n, rfl⟩

theorem Renders.bind {x : Render α} {f : α → Render β} (hx : Renders x)
    (hf : ∀ a, Renders (f a)) : Renders (x >>= f) := fun n => by
  obtain ⟨a, k, ha⟩ := hx n
  obtain ⟨b, m, hb⟩ := hf a k
  exact ⟨b, m, bind_eq_ok.mpr ⟨a, k, ha, hb⟩⟩

end Renders

/-- The context names the tables in scope. -/
def Context.Names (c : Context) (visible : List Table) : Prop :=
  c.aliases.map Prod.fst = visible.map Table.scope

theorem Context.Names.lookup {c : Context} {visible : List Table} (h : c.Names visible)
    {scope : ℕ} (hs : scope ∈ visible.map Table.scope) :
    ∃ a, c.aliases.lookup scope = some a := by
  rw [← h] at hs
  cases ha : c.aliases.lookup scope with
  | some a => exact ⟨a, rfl⟩
  | none =>
    obtain ⟨p, hp, rfl⟩ := List.mem_map.mp hs
    simpa using List.lookup_eq_none_iff.mp ha p hp

theorem Context.Names.select {c : Context} {visible : List Table} (h : c.Names visible)
    (t : Table) (a : String) (joins : List Join) (aliases : List String)
    (hl : joins.length = aliases.length) :
    ({ c with aliases := (t.scope, a) :: (joins.map Join.scope).zip aliases ++ c.aliases } :
      Context).Names (t :: joins.map Join.table ++ visible) := by
  have hz : ((joins.map Join.scope).zip aliases).map Prod.fst = joins.map Join.scope :=
    List.map_fst_zip (by simp [hl])
  have hj : (joins.map Join.table).map Table.scope = joins.map Join.scope := by
    simp [Join.table, Function.comp_def]
  simp only [Names, List.cons_append, List.map_cons, List.map_append, hz, hj] at h ⊢
  rw [h]

mutual

theorem renders_render {c : Context} {visible : List Table} {a : Node} (hc : c.Names visible)
    (h : ∀ p ∈ a.uses visible, p.InScope c.params) : Renders (render c a) := by
  match a with
  | .column scope name =>
    obtain ⟨q, hq⟩ := hc.lookup (h ⟨visible, .column scope name⟩ (List.mem_singleton_self _))
    rw [render, hq]
    exact .pure
  | .param scope index sqlType =>
    have hp : c.params = some scope :=
      h ⟨visible, .param scope⟩ (List.mem_singleton_self _)
    rw [render, if_neg (not_not.mpr hp)]
    exact .pure
  | .literal sql constant => exact .pure
  | .apply name args => exact (renders_renderAll hc h).bind fun _ => .pure
  | .infixOp op a b =>
    obtain ⟨ha, hb⟩ := List.forall_mem_append.mp h
    exact (renders_render hc ha).bind fun _ => (renders_render hc hb).bind fun _ => .pure
  | .prefixOp op a => exact (renders_render (a := a) hc h).bind fun _ => .pure
  | .postfixOp a op => exact (renders_render (a := a) hc h).bind fun _ => .pure
  | .cast a sqlType => exact (renders_render (a := a) hc h).bind fun _ => .pure
  | .countStar => exact .pure
  | .existsIn s => exact (renders_renderSource (s := s) hc h).bind fun _ => .pure
  | .inSubquery a s =>
    obtain ⟨ha, hs⟩ := List.forall_mem_append.mp h
    exact (renders_render hc ha).bind fun _ => (renders_renderSource hc hs).bind fun _ => .pure
  | .scalar s => exact (renders_renderSource (s := s) hc h).bind fun _ => .pure
  | .over f ⟨partition, order, frame⟩ =>
    obtain ⟨h, ho⟩ := List.forall_mem_append.mp h
    obtain ⟨hf, hp⟩ := List.forall_mem_append.mp h
    exact (renders_render hc hf).bind fun _ => (renders_renderAll hc hp).bind fun _ =>
      (renders_renderOrders hc ho).bind fun _ => .pure

theorem renders_renderAll {c : Context} {visible : List Table} {l : List Node}
    (hc : c.Names visible) (h : ∀ p ∈ nodesUses visible l, p.InScope c.params) :
    Renders (renderAll c l) := by
  match l with
  | [] => exact .pure
  | a :: rest =>
    obtain ⟨ha, hr⟩ := List.forall_mem_append.mp h
    exact (renders_render hc ha).bind fun _ => (renders_renderAll hc hr).bind fun _ => .pure

theorem renders_renderOrders {c : Context} {visible : List Table} {l : List Order}
    (hc : c.Names visible) (h : ∀ p ∈ ordersUses visible l, p.InScope c.params) :
    Renders (renderOrders c l) := by
  match l with
  | [] => exact .pure
  | ⟨key, descending⟩ :: rest =>
    obtain ⟨ha, hr⟩ := List.forall_mem_append.mp h
    exact (renders_render hc ha).bind fun _ => (renders_renderOrders hc hr).bind fun _ => .pure

theorem renders_renderClause {c : Context} {visible : List Table} (keyword : String)
    {o : Option Node} (hc : c.Names visible)
    (h : ∀ p ∈ clauseUses visible o, p.InScope c.params) :
    Renders (renderClause c keyword o) := by
  match o with
  | none => exact .pure
  | some a => exact (renders_render (a := a) hc h).bind fun _ => .pure

theorem renders_renderJoins {c : Context} {visible : List Table} {joins : List Join}
    {aliases : List String} (hc : c.Names visible)
    (h : ∀ p ∈ joinsUses visible joins, p.InScope c.params) :
    Renders (renderJoins c joins aliases) := by
  match joins, aliases with
  | [], _ => exact .pure
  | _ :: _, [] => exact .pure
  | ⟨kind, target, scope, on⟩ :: rest, a :: aliases =>
    obtain ⟨ho, hr⟩ := List.forall_mem_append.mp h
    exact (renders_renderClause "ON" hc ho).bind fun _ =>
      (renders_renderJoins hc hr).bind fun _ => .pure

theorem renders_renderSource {c : Context} {visible : List Table} {s : Source}
    (hc : c.Names visible) (h : ∀ p ∈ s.uses visible, p.InScope c.params) :
    Renders (renderSource c s) := by
  match s with
  | .select target scope ⟨_, list, distinct, joins, where_, groupBy, having, qualify, orderBy,
      limit, offset⟩ =>
    obtain ⟨h, ho⟩ := List.forall_mem_append.mp h
    obtain ⟨h, hq⟩ := List.forall_mem_append.mp h
    obtain ⟨h, hh⟩ := List.forall_mem_append.mp h
    obtain ⟨h, hg⟩ := List.forall_mem_append.mp h
    obtain ⟨h, hw⟩ := List.forall_mem_append.mp h
    obtain ⟨hl, hj⟩ := List.forall_mem_append.mp h
    intro n
    -- inside the select its own tables have names too
    have hc' := hc.select ⟨scope, target⟩ (aliasOf n) joins
      ((List.range' (n + 1) joins.length).map aliasOf) (by simp)
    obtain ⟨_, k₁, hl⟩ := renders_renderAll hc' hl (n + 1 + joins.length)
    obtain ⟨_, k₂, hj⟩ := renders_renderJoins hc' hj k₁
    obtain ⟨_, k₃, hw⟩ := renders_renderClause "WHERE" hc' hw k₂
    obtain ⟨_, k₄, hg⟩ := renders_renderAll hc' hg k₃
    obtain ⟨_, k₅, hh⟩ := renders_renderClause "HAVING" hc' hh k₄
    obtain ⟨_, k₆, hq⟩ := renders_renderClause "QUALIFY" hc' hq k₅
    obtain ⟨_, k₇, ho⟩ := renders_renderOrders hc' ho k₆
    -- the clauses render one after the other, each from the counter of the last
    exact ⟨_, k₇, bind_eq_ok.mpr ⟨_, _, rfl, bind_eq_ok.mpr ⟨_, _, freshAliases_eq ..,
      bind_eq_ok.mpr ⟨_, _, hl, bind_eq_ok.mpr ⟨_, _, hj, bind_eq_ok.mpr ⟨_, _, hw,
        bind_eq_ok.mpr ⟨_, _, hg, bind_eq_ok.mpr ⟨_, _, hh, bind_eq_ok.mpr ⟨_, _, hq,
          bind_eq_ok.mpr ⟨_, _, ho, rfl⟩⟩⟩⟩⟩⟩⟩⟩⟩⟩
  | .set op left right =>
    obtain ⟨hl, hr⟩ := List.forall_mem_append.mp h
    exact (renders_renderSource hc hl).bind fun _ =>
      (renders_renderSource hc hr).bind fun _ => .pure

end

/-! ### Queries -/

/-- Under pairwise different aliases, a qualified reference denotes the table of its alias. -/
theorem resolve_qualified {columns : String → List String} {q name : String}
    {levels : List (List Occurrence)} {t : Occurrence}
    (hn : (levels.flatten.map Occurrence.aliasName).Nodup) (ht : t ∈ levels.flatten)
    (ha : t.aliasName = some q) : resolve columns (some q) name levels = some t := by
  induction levels with
  | nil => simp at ht
  | cons level outer ih =>
    rw [List.flatten_cons, List.map_append] at hn
    obtain ⟨hlevel, houter, hdisj⟩ := List.nodup_append.mp hn
    rw [resolve]
    by_cases hl : t ∈ level
    -- in its own select only the table answers to its alias
    · have hone : level.filter (Occurrence.Answers columns (some q) name ·) = [t] := by
        rw [List.filter_congr (q := (· == t)) fun u hu => ?_, List.filter_beq,
          List.count_eq_one_of_mem (List.Nodup.of_map _ hlevel) hl, List.replicate_one]
        have hu' : Occurrence.Answers columns (some q) name u ↔ u = t :=
          ⟨fun h => List.inj_on_of_nodup_map hlevel hu hl (h.trans ha.symm), fun h => h ▸ ha⟩
        rw [Bool.eq_iff_iff, decide_eq_true_iff, beq_iff_eq, hu']
      rw [hone]
    -- in an inner one no table does
    · have hto : t ∈ outer.flatten := by simpa [hl] using ht
      have hnone : level.filter (Occurrence.Answers columns (some q) name ·) = [] := by
        rw [List.filter_eq_nil_iff]
        intro u hu h
        have hu' : u.aliasName = some q := of_decide_eq_true h
        exact hdisj _ (List.mem_map_of_mem hu) _ (List.mem_map_of_mem hto) (hu'.trans ha.symm)
      rw [hnone]
      exact ih houter hto

/-- A bound reference under an alias denotes the table that bound it. -/
theorem Reference.Bound.denotes {r : Reference} (h : r.Bound) {q : String}
    (hq : r.qualifier = some q) (columns : String → List String) : r.Denotes columns := by
  obtain ⟨t, hb, ha⟩ := h.named
  refine ⟨by simp [hb], ?_⟩
  rw [hb, hq]
  exact resolve_qualified h.nodup (List.mem_of_find?_eq_some hb) (ha.trans hq)

theorem mem_occurrences_of_tables {ps : List Fragment} {t : Occurrence} (h : t ∈ tables ps) :
    t ∈ occurrences ps := by
  induction ps with
  | nil => exact h
  | cons f rest ih =>
    cases f
    case table u =>
      rw [tables, List.mem_cons] at h
      exact List.mem_append.mpr (h.imp List.mem_singleton.mpr ih)
    all_goals exact List.mem_append_right _ (ih h)

mutual

/-- The selects around a reference are those of the text, inside those around the text. -/
theorem Fragment.levels_eq {levels : List (List Occurrence)} {f : Fragment} {r : Reference}
    (hr : r ∈ f.references levels) :
    ∃ inner, r.levels = inner ++ levels ∧ ∀ t ∈ inner.flatten, t ∈ f.occurrences := by
  match f with
  | .raw _ => cases hr
  | .column _ _ _ =>
    rw [List.mem_singleton.mp hr]
    exact ⟨[], rfl, by simp⟩
  | .table _ => cases hr
  | .select pieces =>
    obtain ⟨inner, hl, ho⟩ := levels_of_references hr
    refine ⟨inner ++ [tables pieces], by simp [hl], fun t ht => ?_⟩
    rw [List.flatten_append, List.mem_append] at ht
    exact ht.elim (ho t) fun h => mem_occurrences_of_tables (by simpa using h)

theorem levels_of_references {levels : List (List Occurrence)} {ps : List Fragment}
    {r : Reference} (hr : r ∈ references levels ps) :
    ∃ inner, r.levels = inner ++ levels ∧ ∀ t ∈ inner.flatten, t ∈ occurrences ps := by
  match ps with
  | [] => cases hr
  | f :: rest =>
    rcases List.mem_append.mp hr with hr | hr
    · obtain ⟨inner, hl, ho⟩ := Fragment.levels_eq hr
      exact ⟨inner, hl, fun t ht => List.mem_append_left _ (ho t ht)⟩
    · obtain ⟨inner, hl, ho⟩ := levels_of_references hr
      exact ⟨inner, hl, fun t ht => List.mem_append_right _ (ho t ht)⟩

end

theorem fits_empty (params : Option ℕ) (n : ℕ) : Fits ⟨[], params⟩ [] n where
  aliases := rfl
  nodup := List.nodup_nil
  named := by simp

/-- A reference whose table has an alias denotes it. -/
theorem Emitted.denotes {params : Option ℕ} {levels : List (List Occurrence)}
    {uses : List Place} {own : List Occurrence} {S : Set ℕ} {ps : List Fragment}
    (h : Emitted params levels uses own S ps)
    {r : Reference} (hr : r ∈ references levels ps)
    (ha : ∀ t ∈ levels.flatten, r.binder = some t → t.aliasName.isSome)
    (columns : String → List String) : r.Denotes columns := by
  obtain ⟨t, hb, hq⟩ := (h.bound r hr).named
  obtain ⟨inner, hl, ho⟩ := levels_of_references hr
  have ht : t ∈ inner.flatten ∨ t ∈ levels.flatten := by
    simpa [hl] using List.mem_of_find?_eq_some hb
  have hs : t.aliasName.isSome := by
    rcases ht with ht | ht
    · obtain ⟨k, -, hk⟩ := h.named t (ho t ht)
      simp [hk]
    · exact ha t ht hb
  obtain ⟨q, hq'⟩ := Option.isSome_iff_exists.mp hs
  exact (h.bound r hr).denotes (hq.symm.trans hq') columns

/-- The text of a query consists of its columns, all in scope. -/
theorem emitted_of_query {params : List Codec} {scope : ℕ} {s : Source} {g : Generated}
    (h : query params scope s = .ok g) :
    ∃ m, Emitted (some scope) [] (s.uses []) [] (Set.Ico 0 m) g.sql := by
  rw [query] at h
  cases hr : renderSource ⟨[], some scope⟩ s 0 with
  | error e =>
    rw [hr] at h
    cases h
  | ok r =>
    obtain ⟨ps, m⟩ := r
    rw [hr] at h
    obtain rfl := Except.ok.inj h
    exact ⟨m, (emits_of_renderSource (fits_empty (some scope) 0) hr).2⟩

/-- A query in scope renders. -/
theorem exists_query (params : List Codec) {scope : ℕ} {s : Source}
    (h : ∀ p ∈ s.uses [], p.InScope (some scope)) : ∃ g, query params scope s = .ok g := by
  have hn : (⟨[], some scope⟩ : Context).Names [] := rfl
  obtain ⟨ps, m, hr⟩ := renders_renderSource hn h 0
  exact ⟨⟨params, s.leftmost.columns, ps⟩, by rw [query, hr]; rfl⟩

/-- **Queries are hygienic.** A query renders exactly when each of its columns and parameters is
in scope where it occurs; the tables of its text then have different aliases, and the columns of
its text, which are those of the source in order, denote by SQL's innermost-scope rule the tables
that bound them, whatever the columns of the tables. -/
theorem query_scoped (params : List Codec) (scope : ℕ) (s : Source) :
    ((∃ message, query params scope s = .error (.invalidArgument message)) ↔
      ∃ p ∈ s.uses [], ¬ p.InScope (some scope)) ∧
    ∀ g, query params scope s = .ok g →
      ((occurrences g.sql).map Occurrence.aliasName).Nodup ∧
      (∀ t ∈ occurrences g.sql, t.aliasName.isSome) ∧
      (references [] g.sql).map Reference.place = columnPlaces (s.uses []) ∧
      ∀ columns, ∀ r ∈ references [] g.sql, r.Denotes columns := by
  refine ⟨⟨fun ⟨message, hm⟩ => ?_, fun ⟨p, hp, hn⟩ => ?_⟩, fun g hg => ?_⟩
  · -- were every use in scope, the rendering would succeed
    by_contra hall
    obtain ⟨g, hg⟩ := exists_query params (by simpa using hall)
    rw [hm] at hg
    cases hg
  · cases h : query params scope s with
    | error e => exact ⟨e.1, rfl⟩
    | ok g =>
      obtain ⟨m, he⟩ := emitted_of_query h
      exact absurd (he.inScope p hp) hn
  · obtain ⟨m, he⟩ := emitted_of_query hg
    have hsome : ∀ t ∈ occurrences g.sql, t.aliasName.isSome := fun t ht => by
      obtain ⟨k, -, hk⟩ := he.named t ht
      simp [hk]
    exact ⟨he.nodup, hsome, he.places, fun columns r hr => he.denotes hr (by simp) columns⟩

end DuckdbMl.Sql
