import DuckdbMl.Migration.Checksum
import DuckdbMl.Schema.Catalog

/-!
# Migrations: what the library creates verifies

The statements of `create` and `add_column` are read as structured statements, and the engine as
a table that keeps what they state. What its catalog then reports agrees with the declaration.

## Main definitions

* `Statement`, `Stored`: structured statements, and the table they make
* `createStatement`, `addedStatements`: what `ddl` and `addColumn` write
* `Reports`: the catalog reports what the table keeps
* `Accepts`: what DuckDB accepts of a declaration
* `States`: the table keeps what the declaration states

## Main results

* `text_createStatement`, `texts_addedStatements`: the texts are those of the code
* `agrees_of_states`: the catalog of such a table agrees with the declaration
* `schema_round_trip`: a declared table verifies once created, and once its column is added
-/

namespace DuckdbMl.Migration

open Sql Schema Matching

/-! ### Statements -/

/-- What a statement says of a column. -/
structure ColumnClause where
  name : String
  sqlType : String
  notNull : Bool
  default : Option String

inductive ConstraintClause
  | primaryKey (names : List String)
  | unique (names : List String)
  | foreignKey (columns : List String) (table : String) (references : List String)
  | check (sql : String)

inductive Statement
  | createTable (schema name : String) (columns : List ColumnClause)
      (constraints : List ConstraintClause)
  | addColumn (schema table : String) (column : ColumnClause)
  | setNotNull (schema table name : String)

def ColumnClause.text (c : ColumnClause) : String :=
  quote c.name ++ " " ++ c.sqlType ++ (if c.notNull then " NOT NULL" else "") ++
    (c.default.map (" DEFAULT " ++ ·)).getD ""

def ConstraintClause.text (schema : String) : ConstraintClause → String
  | .primaryKey names => "PRIMARY KEY " ++ quoted names
  | .unique names => "UNIQUE " ++ quoted names
  | .foreignKey columns other references => "FOREIGN KEY " ++ quoted columns ++
    " REFERENCES " ++ quote schema ++ "." ++ quote other ++ " " ++ quoted references
  | .check sql => "CHECK (" ++ sql ++ ")"

def Statement.text : Statement → String
  | .createTable schema name columns constraints =>
    "CREATE TABLE " ++ target schema name ++ " (" ++ String.intercalate ", "
      (columns.map ColumnClause.text ++ constraints.map (ConstraintClause.text schema)) ++ ")"
  | .addColumn schema table column =>
    "ALTER TABLE " ++ target schema table ++ " ADD COLUMN " ++ column.text
  | .setNotNull schema table name =>
    "ALTER TABLE " ++ target schema table ++ " ALTER COLUMN " ++ quote name ++ " SET NOT NULL"

/-! ### The engine -/

/-- A table as the engine keeps it. -/
structure Stored where
  columns : List ColumnClause
  constraints : List ConstraintClause

/-- A statement on the table, as it stands before. -/
def Statement.run (s : Stored) : Statement → Stored
  | .createTable _ _ columns constraints => ⟨columns, constraints⟩
  | .addColumn _ _ column => { s with columns := s.columns ++ [column] }
  | .setNotNull _ _ name =>
    { s with columns := s.columns.map fun c => if c.name = name then { c with notNull := true } else c }

def run (statements : List Statement) : Stored := statements.foldl Statement.run ⟨[], []⟩

/-- The column is of the primary key. -/
def Stored.isKey (s : Stored) (name : String) : Bool :=
  s.constraints.any fun
    | .primaryKey names => names.any (caselessEqual · name)
    | _ => false

/-- A constraint as the catalog lists it; `columnsOf` gives the columns that the text of a CHECK
refers to. -/
def ConstraintClause.shape (columnsOf : String → List String) : ConstraintClause → Shape
  | .primaryKey names => ⟨"PRIMARY KEY", names, "", []⟩
  | .unique names => ⟨"UNIQUE", names, "", []⟩
  | .foreignKey columns table references => ⟨"FOREIGN KEY", columns, table, references⟩
  | .check sql => ⟨"CHECK", columnsOf sql, "", []⟩

/-- **The catalog reports what the table keeps**: its columns, with those of the primary key NOT
NULL, the presence of defaults, and one row for each constraint, in any order. -/
structure Reports (columnsOf : String → List String) (s : Stored) (r : Rows) : Prop where
  columns : r.catalog.Perm (s.columns.map fun c =>
    ⟨c.name, !(c.notNull || s.isKey c.name), c.default.isSome⟩)
  constraints : (actualShapes r).Perm (s.constraints.map (·.shape columnsOf))

/-- **What DuckDB accepts** of a declaration: column names that differ ignoring case, and CHECK
constraints without subqueries, of which the catalog lists each column once. -/
structure Accepts (columnsOf : String → List String) (t : TableDef) (scope : ℕ)
    (constraints : List Constraint) : Prop where
  names : (t.columns.map (lowercase ·.1)).Nodup
  noSubquery : ∀ a ps, .check a ∈ constraints → renderBare scope a = .ok ps → occurrences ps = []
  listed : ∀ a ps, .check a ∈ constraints → renderBare scope a = .ok ps →
    (columnsOf (textOf ps)).Nodup ∧
      ∀ name, name ∈ columnsOf (textOf ps) ↔ name ∈ ownReferences ⟨scope, targetOf t⟩ ps

/-! ### What the library writes -/

def clauseOf : TableConstraint → Option ConstraintClause
  | .primaryKey names => some (.primaryKey names)
  | .unique names => some (.unique names)
  | .foreignKey columns table references => some (.foreignKey columns table references)
  | .check sql _ => some (.check sql)
  | .default _ _ _ => none

def createStatement (t : TableDef) : Statement :=
  .createTable t.schema t.name
    ((specs t.columns).map fun c =>
      ⟨c.name, c.sqlType, !c.nullable, defaultOf t.constraints c.name⟩)
    (t.constraints.filterMap clauseOf)

/-- The default of an added column, as the text of its constant. -/
def addedConstant (constraints : List TableConstraint) (name : String) : Option String :=
  (defaultConstant constraints name).join

def addedStatements (t : TableDef) (name : String) (spec : Spec) : List Statement :=
  .addColumn t.schema t.name ⟨name, spec.sqlType, false, addedConstant t.constraints name⟩ ::
    if spec.nullable then [] else [.setNotNull t.schema t.name name]

/-- What `addColumn` executes for the column of this name. -/
def alterStatements (t : TableDef) (name : String) : List Statement :=
  ((specs t.columns).find? (·.name = name)).toList.flatMap (addedStatements t name)

/-- The declaration without a column and its defaults. -/
def without (t : TableDef) (name : String) : TableDef :=
  { t with
    columns := t.columns.filter (·.1 ≠ name)
    constraints := t.constraints.filter fun
      | .default column _ _ => column ≠ name
      | _ => true }

theorem text_createStatement (t : TableDef) : (createStatement t).text = ddl t := by
  have hcolumns : ((specs t.columns).map fun c => (⟨c.name, c.sqlType, !c.nullable,
      defaultOf t.constraints c.name⟩ : ColumnClause)).map ColumnClause.text =
      (specs t.columns).map (columnClause t.constraints) := by
    rw [List.map_map]
    refine List.map_congr_left fun c _ => ?_
    simp only [Function.comp_apply, ColumnClause.text, columnClause]
    cases c.nullable <;> rfl
  have hconstraints : (t.constraints.filterMap clauseOf).map (ConstraintClause.text t.schema) =
      t.constraints.filterMap (constraintClause t.schema) := by
    rw [List.map_filterMap]
    refine List.filterMap_congr fun c _ => ?_
    cases c <;> rfl
  rw [createStatement, Statement.text, hcolumns, hconstraints]
  rfl

theorem addedDefault_eq {constraints : List TableConstraint} {name : String}
    {default : Option String} (h : addedDefault constraints name = .ok default) :
    default = (addedConstant constraints name).map (" DEFAULT " ++ ·) := by
  unfold addedDefault at h
  unfold addedConstant
  split at h <;> rename_i hf <;> rw [hf] <;> cases h <;> rfl

theorem texts_addedStatements {t : TableDef} {name : String} {spec : Spec}
    {default : Option String} (h : addedDefault t.constraints name = .ok default) :
    (added t name spec default).list = (addedStatements t name spec).map Statement.text := by
  rw [addedDefault_eq h, added, Kind.list, addedStatements, List.map_cons]
  refine congrArg₂ List.cons ?_ ?_
  · simp only [Statement.text, ColumnClause.text, String.append_assoc, Bool.false_eq_true, if_false,
      String.empty_append]
  · cases spec.nullable <;> rfl

/-! ### What the catalog then holds -/

/-- Name, NOT NULL and presence of a default. -/
def ColumnClause.key (c : ColumnClause) : String × Bool × Bool :=
  (c.name, c.notNull, c.default.isSome)

/-- **The table keeps what the declaration states**, up to the texts of types and defaults. -/
structure States (t : TableDef) (s : Stored) : Prop where
  columns : (s.columns.map ColumnClause.key).Perm (t.columns.map fun c =>
    (c.1, !Codec.isNullable c.2, (defaultOf t.constraints c.1).isSome))
  constraints : s.constraints = t.constraints.filterMap clauseOf

section Agreement

variable {columnsOf : String → List String} {t : TableDef} {scope : ℕ}
  {constraints : List Constraint} {s : Stored} {r : Rows}

/-- The CHECK is recorded with the columns that the catalog lists. -/
theorem same_shape (hd : Declares t scope constraints) (ha : Accepts columnsOf t scope constraints)
    {c : TableConstraint} (hc : c ∈ t.constraints) :
    Option.Rel Same (declaredShape c) ((clauseOf c).map (·.shape columnsOf)) := by
  cases c with
  | check sql columns =>
    refine .some ⟨rfl, rfl, ?_⟩
    rw [if_neg (by simp)]
    obtain ⟨x, hx, -, hr⟩ := hd.resolved hc
    cases x with
    | check a =>
      obtain ⟨ps, hps, he⟩ := hr
      cases he
      obtain ⟨hnodup, hcolumns⟩ := ha.listed a ps hx hps
      obtain ⟨m, hm⟩ := render_of_renderBare hps
      -- without a subquery the traversal finds all columns that the text mentions
      have hmentioned := (mentioned_iff (t := ⟨scope, targetOf t⟩) hps).mpr fun p hp name hpn =>
        reads_of_occurrences hm (ha.noSubquery a ps hx hps) hp hpn.1
      refine ((List.perm_ext_iff_of_nodup (nodup_mentioned a) hnodup).mpr fun name => ?_).map _
      rw [hmentioned, hcolumns]
    -- no other constraint is recorded as a CHECK
    | primaryKey | unique =>
      obtain ⟨_, _, he⟩ := hr
      cases he
    | foreignKey =>
      obtain ⟨_, _, _, he⟩ := hr
      cases he
    | default =>
      obtain ⟨_, _, _, _, he⟩ := hr
      cases he
  | default => exact .none
  | _ => exact .some (same_equivalence.refl _)

theorem forall₂_shapes (hd : Declares t scope constraints)
    (ha : Accepts columnsOf t scope constraints) : List.Forall₂ Same (declaredShapes t.constraints)
      ((t.constraints.filterMap clauseOf).map (·.shape columnsOf)) := by
  rw [declaredShapes, List.map_filterMap]
  have hrefl : List.Forall₂ (fun c d => c = d ∧ c ∈ t.constraints) t.constraints t.constraints :=
    List.forall₂_same.mpr fun c hc => ⟨rfl, hc⟩
  refine List.rel_filterMap (fun c d => ?_) hrefl
  rintro ⟨rfl, hc⟩
  exact same_shape hd ha hc

/-- A column of the table by its name ignoring case. -/
theorem column_eq (ha : Accepts columnsOf t scope constraints) {c d : String × Codec}
    (hc : c ∈ t.columns) (hd : d ∈ t.columns) (h : lowercase c.1 = lowercase d.1) : c = d :=
  List.inj_on_of_nodup_map ha.names hc hd h

/-- The primary key has non-null columns. -/
theorem nonNull_of_isKey (hd : Declares t scope constraints)
    (ha : Accepts columnsOf t scope constraints)
    (hs : s.constraints = t.constraints.filterMap clauseOf) {c : String × Codec}
    (hc : c ∈ t.columns) (hk : s.isKey c.1 = true) : Codec.isNullable c.2 = false := by
  rw [Stored.isKey, hs, List.any_eq_true] at hk
  obtain ⟨clause, hm, hk⟩ := hk
  obtain ⟨constraint, hconstraint, hclause⟩ := List.mem_filterMap.mp hm
  cases constraint with
  | primaryKey names =>
    cases hclause
    obtain ⟨name, hname, he⟩ := List.any_eq_true.mp hk
    obtain ⟨x, hx, hp, hr⟩ := hd.resolved hconstraint
    cases x with
    -- the declaration has refused a nullable key column
    | primaryKey key =>
      obtain ⟨l, hn, hl⟩ := hr
      cases hl
      obtain ⟨plan, hplan⟩ := hp _ (mem_of_names hn hname) rfl
      rw [← column_eq ha hplan hc (of_decide_eq_true he)]
      rfl
    | unique | check =>
      obtain ⟨_, _, he⟩ := hr
      cases he
    | foreignKey =>
      obtain ⟨_, _, _, he⟩ := hr
      cases he
    | default =>
      obtain ⟨_, _, _, _, he⟩ := hr
      cases he
  -- only the primary key makes its columns NOT NULL
  | default => cases hclause
  | _ =>
    cases hclause
    cases hk

theorem defaultOf_isSome (constraints : List TableConstraint) (name : String) :
    (defaultOf constraints name).isSome ↔
      ∃ sql constant, .default name sql constant ∈ constraints := by
  rw [defaultOf, List.isSome_findSome?, List.any_eq_true]
  constructor
  · rintro ⟨c, hc, he⟩
    cases c with
    | default column sql constant =>
      dsimp only at he
      split at he
      · subst column
        exact ⟨sql, constant, hc⟩
      · cases he
    | _ => cases he
  · rintro ⟨sql, constant, hc⟩
    exact ⟨_, hc, by simp⟩

/-- A column of the catalog is a declared one, with its nullability and its default. -/
theorem column_of_catalog (hd : Declares t scope constraints)
    (ha : Accepts columnsOf t scope constraints) (hs : States t s) (hr : Reports columnsOf s r)
    {a : CatalogColumn} (hm : a ∈ r.catalog) : ∃ d ∈ t.columns,
      a = ⟨d.1, Codec.isNullable d.2, (defaultOf t.constraints d.1).isSome⟩ := by
  obtain ⟨c, hc, rfl⟩ := List.mem_map.mp (hr.columns.mem_iff.mp hm)
  obtain ⟨d, hdm, hkey⟩ := List.mem_map.mp (hs.columns.mem_iff.mp (List.mem_map_of_mem hc))
  obtain ⟨hname, hnull, hdefault⟩ : d.1 = c.name ∧ (!Codec.isNullable d.2) = c.notNull ∧
      (defaultOf t.constraints d.1).isSome = c.default.isSome := by
    simpa [ColumnClause.key] using hkey
  refine ⟨d, hdm, ?_⟩
  rw [← hname, ← hnull, ← hdefault]
  congr 1
  cases hn : Codec.isNullable d.2 with
  | false => rfl
  | true =>
    cases hk : s.isKey d.1 with
    | false => rfl
    | true => rw [nonNull_of_isKey hd ha hs.constraints hdm hk] at hn; cases hn

/-- **The catalog of a table that keeps what the declaration states agrees** with it. -/
theorem agrees_of_states (hd : Declares t scope constraints)
    (ha : Accepts columnsOf t scope constraints) (hs : States t s) (hr : Reports columnsOf s r) :
    Agrees t r where
  nullability c hc a hm he := by
    obtain ⟨d, hdm, rfl⟩ := column_of_catalog hd ha hs hr hm
    rw [column_eq ha hc hdm he.symm]
  -- each declared shape has its own in the catalog, whatever the order of the rows
  declared := by
    have hshapes := (Injects.refl same_equivalence.refl _).trans_forall₂ same_equivalence
      (forall₂_shapes hd ha)
    rw [← hs.constraints] at hshapes
    exact ((injects_perm same_equivalence (.refl _) hr.constraints.symm).mp
      hshapes).append_right _
  catalog := by
    have hsymm := (forall₂_shapes hd ha).flip.imp fun _ _ => same_equivalence.symm
    have hshapes := (Injects.refl same_equivalence.refl _).of_forall₂ same_equivalence hsymm
    rw [← hs.constraints] at hshapes
    exact (injects_perm same_equivalence hr.constraints (.refl _)).mpr hshapes
  defaults a hm _ := by
    obtain ⟨d, hdm, rfl⟩ := column_of_catalog hd ha hs hr hm
    rw [defaultOf_isSome]
    constructor
    · rintro ⟨sql, constant, hc⟩
      exact ⟨d.1, sql, constant, hc, rfl⟩
    -- a declared default is of a column of the table, whose name the catalog tells apart
    · rintro ⟨column, sql, constant, hc, he⟩
      obtain ⟨_, _, hcolumn, -⟩ := hd.default hc
      obtain ⟨c, hcm, rfl⟩ := List.mem_map.mp hcolumn
      rw [← column_eq ha hcm hdm he]
      exact ⟨sql, constant, hc⟩

theorem valid_of_states (hd : Declares t scope constraints)
    (ha : Accepts columnsOf t scope constraints) (hs : States t s) (hr : Reports columnsOf s r) :
    r.Valid where
  -- the names of the catalog are those of the declaration
  distinct := by
    have hcatalog : (r.catalog.map (lowercase ·.name)).Perm (t.columns.map (lowercase ·.1)) := by
      have hleft := hr.columns.map fun a => lowercase a.name
      have hright := hs.columns.map fun k => lowercase k.1
      rw [List.map_map] at hleft hright
      rw [List.map_map] at hright
      exact hleft.trans hright
    exact hcatalog.nodup_iff.mpr ha.names
  -- a foreign key has as many columns on both sides
  paired k hk hf := by
    have hshape := hr.constraints.mem_iff.mp (List.mem_map_of_mem hk)
    obtain ⟨clause, hm, he⟩ := List.mem_map.mp hshape
    rw [hs.constraints] at hm
    obtain ⟨c, hc, hclause⟩ := List.mem_filterMap.mp hm
    cases c with
    | foreignKey columns table references =>
      cases hclause
      obtain ⟨-, hcolumns, -, hreferences⟩ := Shape.mk.inj he
      rw [← hcolumns, ← hreferences]
      exact Declared.paired ⟨_, _, hd⟩ hc
    | default => cases hclause
    | _ =>
      cases hclause
      have hkind := (Shape.mk.inj he).1
      rw [hf] at hkind
      simp at hkind

end Agreement

/-! ### Round trips -/

section RoundTrip

variable {columnsOf : String → List String} {t : TableDef} {scope : ℕ}
  {constraints : List Constraint}

theorem states_create (t : TableDef) : States t (run [createStatement t]) where
  columns := by
    refine .of_eq ?_
    simp [run, Statement.run, createStatement, specs, ColumnClause.key, Function.comp_def]
  constraints := rfl

/-- Without a column that is declared once, the others are left. -/
theorem perm_without (hn : (t.columns.map (lowercase ·.1)).Nodup) {c : String × Codec}
    (hc : c ∈ t.columns) : t.columns.Perm (t.columns.filter (·.1 ≠ c.1) ++ [c]) := by
  have hnodup : t.columns.Nodup := hn.of_map _
  refine (List.perm_ext_iff_of_nodup hnodup ?_).mpr fun d => ?_
  · refine (hnodup.filter _).append (List.nodup_singleton _) fun d hd hdc => ?_
    rw [List.mem_singleton.mp hdc] at hd
    simpa using (List.mem_filter.mp hd).2
  · rw [List.mem_append, List.mem_filter, List.mem_singleton]
    constructor
    · intro hd
      by_cases he : d.1 = c.1
      · exact .inr (List.inj_on_of_nodup_map hn hd hc (congrArg lowercase he))
      · exact .inl ⟨hd, by simpa using he⟩
    · rintro (⟨hd, -⟩ | rfl)
      · exact hd
      · exact hc

theorem findSome?_filter {α β : Type} {f : α → Option β} {p : α → Bool} {l : List α}
    (h : ∀ a ∈ l, p a = false → f a = none) : (l.filter p).findSome? f = l.findSome? f := by
  induction l with
  | nil => rfl
  | cons a l ih =>
    have ih := ih fun b hb => h b (List.mem_cons_of_mem _ hb)
    cases hp : p a with
    | true => rw [List.filter_cons_of_pos hp, List.findSome?_cons, List.findSome?_cons, ih]
    | false =>
      rw [List.filter_cons_of_neg (by simp [hp]), List.findSome?_cons,
        h a (List.mem_cons_self ..) hp, ih]

theorem defaultOf_without {name other : String} (h : other ≠ name) :
    defaultOf (without t name).constraints other = defaultOf t.constraints other := by
  refine findSome?_filter fun c _ hp => ?_
  cases c with
  | default column sql constant =>
    have hc : column = name := by simpa using hp
    exact if_neg (hc ▸ h.symm)
  | _ => cases hp

theorem isSome_defaultConstant (constraints : List TableConstraint) (name : String) :
    (defaultConstant constraints name).isSome = (defaultOf constraints name).isSome := by
  rw [defaultConstant, defaultOf, List.isSome_findSome?, List.isSome_findSome?]
  congr 1
  funext c
  cases c with
  | default column sql constant =>
    dsimp only
    split <;> rfl
  | _ => rfl

theorem isSome_addedConstant {name : String} {default : Option String}
    (h : addedDefault t.constraints name = .ok default) :
    (addedConstant t.constraints name).isSome = (defaultOf t.constraints name).isSome := by
  rw [← isSome_defaultConstant, addedConstant]
  unfold addedDefault at h
  rcases hc : defaultConstant t.constraints name with _ | _ | constant
  · rfl
  · rw [hc] at h
    cases h
  · rfl

theorem filterMap_without (t : TableDef) (name : String) :
    (without t name).constraints.filterMap clauseOf = t.constraints.filterMap clauseOf := by
  rw [without, List.filterMap_filter]
  refine List.filterMap_congr fun c _ => ?_
  cases c with
  | default column => simp only [clauseOf, ite_self]
  | _ => rfl

/-- The column is added as it is declared. -/
theorem states_added (hn : (t.columns.map (lowercase ·.1)).Nodup) {name : String}
    {default : Option String} (hname : name ∈ t.columns.map Prod.fst)
    (hdefault : addedDefault t.constraints name = .ok default) :
    States t (run (createStatement (without t name) :: alterStatements t name)) := by
  obtain ⟨c, hc, rfl⟩ := List.mem_map.mp hname
  have hfind : (specs t.columns).find? (·.name = c.1) =
      some ⟨c.1, sqlType c.2, Codec.isNullable c.2⟩ := by
    cases hf : (specs t.columns).find? (·.name = c.1) with
    | none =>
      have := List.find?_eq_none.mp hf _ (List.mem_map_of_mem hc)
      simp at this
    | some spec =>
      obtain ⟨d, hd, rfl⟩ := List.mem_map.mp (List.mem_of_find?_eq_some hf)
      have hname : d.1 = c.1 := of_decide_eq_true (List.find?_some hf :)
      rw [List.inj_on_of_nodup_map hn hd hc (congrArg lowercase hname)]
  have halter : alterStatements t c.1 =
      addedStatements t c.1 ⟨c.1, sqlType c.2, Codec.isNullable c.2⟩ := by
    simp [alterStatements, hfind]
  let clause (d : String × Codec) : ColumnClause :=
    ⟨d.1, sqlType d.2, !Codec.isNullable d.2, defaultOf (without t c.1).constraints d.1⟩
  let before := (t.columns.filter (·.1 ≠ c.1)).map clause
  have hbefore : before.map ColumnClause.key = (t.columns.filter (·.1 ≠ c.1)).map fun d =>
      (d.1, !Codec.isNullable d.2, (defaultOf t.constraints d.1).isSome) := by
    rw [List.map_map]
    refine List.map_congr_left fun d hd => ?_
    have hne : d.1 ≠ c.1 := by simpa using (List.mem_filter.mp hd).2
    simp only [Function.comp_apply, ColumnClause.key, clause, defaultOf_without hne]
  -- the columns of other names keep their clause
  have hset : before.map (fun d => if d.name = c.1 then { d with notNull := true } else d) =
      before := by
    refine (List.map_congr_left fun d hd => ?_).trans (List.map_id _)
    obtain ⟨d, hd', rfl⟩ := List.mem_map.mp hd
    exact if_neg (by simpa using (List.mem_filter.mp hd').2)
  have hrun : ∃ last : ColumnClause, last.key = (c.1, !Codec.isNullable c.2,
        (defaultOf t.constraints c.1).isSome) ∧
      run (createStatement (without t c.1) :: alterStatements t c.1) =
        ⟨before ++ [last], (without t c.1).constraints.filterMap clauseOf⟩ := by
    have hcreate : ((specs (without t c.1).columns).map fun d => (⟨d.name, d.sqlType, !d.nullable,
        defaultOf (without t c.1).constraints d.name⟩ : ColumnClause)) = before := by
      rw [specs, List.map_map]
      rfl
    rw [halter, addedStatements]
    cases hnull : Codec.isNullable c.2 with
    | true =>
      refine ⟨⟨c.1, sqlType c.2, false, addedConstant t.constraints c.1⟩, ?_, ?_⟩
      · simp only [ColumnClause.key, isSome_addedConstant hdefault, Bool.not_true]
      · simp only [run, createStatement, hcreate, if_true, List.foldl_cons, List.foldl_nil,
          Statement.run]
    | false =>
      refine ⟨⟨c.1, sqlType c.2, true, addedConstant t.constraints c.1⟩, ?_, ?_⟩
      · simp only [ColumnClause.key, isSome_addedConstant hdefault, Bool.not_false]
      · simp only [run, createStatement, hcreate, Bool.false_eq_true, if_false, List.foldl_cons,
          List.foldl_nil, Statement.run, List.map_append, hset, List.map_singleton, if_true]
  obtain ⟨last, hlast, hrun⟩ := hrun
  rw [hrun]
  constructor
  · have hperm := (perm_without hn hc).map fun d =>
      (d.1, !Codec.isNullable d.2, (defaultOf t.constraints d.1).isSome)
    rw [List.map_append] at hperm
    rw [List.map_append, hbefore, List.map_singleton, hlast]
    exact hperm.symm
  · exact filterMap_without ..

/-- **Schema round trip.** Whatever the catalog lists for a CHECK that the engine accepts, the
table created from a declaration verifies against it; so does the table created without a column
that is then added. -/
theorem schema_round_trip (hd : Declares t scope constraints)
    (ha : Accepts columnsOf t scope constraints) :
    ((createStatement t).text = ddl t ∧
      ∀ r, Reports columnsOf (run [createStatement t]) r → compareCatalog t r = .ok (.ok ())) ∧
    ∀ scope' pick k name, addColumn t scope' pick = .ok k →
      name = (pick (Schema.binders t.columns scope')).name →
      (createStatement (without t name)).text = ddl (without t name) ∧
      k.list = (alterStatements t name).map Statement.text ∧
      ∀ r, Reports columnsOf (run (createStatement (without t name) :: alterStatements t name)) r →
        compareCatalog t r = .ok (.ok ()) := by
  -- both halves end in a catalog that states the table
  have hok : ∀ {s r}, States t s → Reports columnsOf s r → compareCatalog t r = .ok (.ok ()) := by
    intro s r hs hr
    obtain ⟨verdict, hv, hiff⟩ :=
      compareCatalog_verdict ⟨scope, constraints, hd⟩ (valid_of_states hd ha hs hr)
    rw [hv, hiff.mpr (agrees_of_states hd ha hs hr)]
  refine ⟨⟨text_createStatement t, fun r => hok (states_create t)⟩, ?_⟩
  rintro scope' pick k name hk rfl
  obtain ⟨-, -, spec, default, hspec, hdefault, rfl⟩ := (addColumn_eq_ok rfl).mp hk
  refine ⟨text_createStatement _, ?_, fun r => hok (states_added ha.names ?_ hdefault)⟩
  · rw [texts_addedStatements hdefault, alterStatements, hspec]
    simp
  · obtain ⟨c, hc, rfl⟩ := List.mem_map.mp (List.mem_of_find?_eq_some hspec)
    have hname : c.1 = _ := of_decide_eq_true (List.find?_some hspec :)
    exact List.mem_map.mpr ⟨c, hc, hname⟩

end RoundTrip

/-- A table with a key, a CHECK and a default. -/
def members : TableDef :=
  ⟨"main", "members", [("id", .nonNull (.identity .int64)), ("age", .nullable (.identity .int32))],
    [.primaryKey ["id"], .check "(\"id\" IS TRUE)" ["id"],
      .default "age" "CAST(18 AS INTEGER)" (some "'18'")]⟩

def membersConstraints : List Constraint :=
  [.primaryKey [(0, "id")], .check (.postfixOp (.column 0 "id") "IS TRUE"),
    .default (0, "age") (scalarNode (.int32 18))]

theorem declares_members : Declares members 0 membersConstraints where
  declares := rfl
  isPublic x hx := by
    rcases List.mem_cons.mp hx with rfl | hx
    · intro c hc _
      rw [List.mem_singleton.mp hc]
      exact ⟨.identity .int64, List.mem_cons_self ..⟩
    · rcases List.mem_pair.mp hx with rfl | rfl
      · trivial
      · exact ⟨fun _ => List.mem_cons_of_mem _ (List.mem_singleton_self _), fun _ _ _ => ⟨_, rfl⟩⟩

theorem accepts_members : Accepts (fun _ => ["id"]) members 0 membersConstraints where
  names := by decide
  noSubquery a ps ha hps := by
    obtain rfl : a = .postfixOp (.column 0 "id") "IS TRUE" := by simpa [membersConstraints] using ha
    cases hps
    rfl
  listed a ps ha hps := by
    obtain rfl : a = .postfixOp (.column 0 "id") "IS TRUE" := by simpa [membersConstraints] using ha
    cases hps
    refine ⟨List.nodup_singleton _, fun name => ?_⟩
    have : ownReferences ⟨0, targetOf members⟩ [.raw "(", .column none "id" 0,
      .raw (" " ++ "IS TRUE" ++ ")")] = ["id"] := rfl
    exact this ▸ Iff.rfl

/-- What the catalog reports after CREATE TABLE. -/
def createdRows : Rows where
  catalog := [⟨"id", false, false⟩, ⟨"age", true, true⟩]
  kinds := [⟨1, "CHECK", ""⟩, ⟨0, "PRIMARY KEY", ""⟩]
  columns := [⟨0, "id"⟩, ⟨1, "id"⟩]
  references := []
  indexes := []

/-- What it reports when `age` has been added to the table. -/
def addedRows : Rows where
  catalog := [⟨"age", true, true⟩, ⟨"id", false, false⟩]
  kinds := [⟨0, "PRIMARY KEY", ""⟩, ⟨5, "CHECK", ""⟩]
  columns := [⟨5, "id"⟩, ⟨0, "id"⟩]
  references := []
  indexes := []

/-- The callback of `add_column` that answers the second column. -/
def second (columns : List Schema.Column) : Schema.Column :=
  columns.getD 1 ⟨0, "", .nullable (.identity .bool)⟩

theorem reports_created :
    Reports (fun _ => ["id"]) (run [createStatement members]) createdRows where
  columns := List.Perm.refl _
  constraints := List.Perm.swap _ _ _

theorem reports_added : Reports (fun _ => ["id"])
    (run (createStatement (without members "age") :: alterStatements members "age")) addedRows where
  columns := List.Perm.swap _ _ _
  constraints := List.Perm.refl _

/-- The catalog of the table agrees with its declaration when it has been created whole, and when
`age` was added to it. -/
theorem members_round_trip :
    compareCatalog members createdRows = .ok (.ok ()) ∧
    ∃ k, addColumn members 1 second = .ok k ∧
      k.list = (alterStatements members "age").map Statement.text ∧
      compareCatalog members addedRows = .ok (.ok ()) := by
  obtain ⟨⟨-, hcreated⟩, hadded⟩ := schema_round_trip declares_members accepts_members
  refine ⟨hcreated _ reports_created, _, rfl, ?_⟩
  obtain ⟨-, hlist, hadded⟩ := hadded 1 second _ "age" rfl rfl
  exact ⟨hlist, hadded _ reports_added⟩

end DuckdbMl.Migration
