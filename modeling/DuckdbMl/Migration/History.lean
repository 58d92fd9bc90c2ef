import DuckdbMl.Migration.Basic

/-!
# The recorded history

Whatever runs interleave and whichever step of theirs fails, the recorded history is a prefix of
the list, and the database holds the writes of exactly those steps. A run reads the history
outside of its transactions, so it may be late; the primary key refuses its COMMIT then.

## Main definitions

* `Applied`: a committed transaction is a whole step
* `Db.Prefix`: the transactions of a database are the first steps of a list
* `Run.Knows`: what a run knows of the database where it is

## Main results

* `pending_eq_ok_iff`: when a history is the list without a suffix
* `Db.Prefix.commit`: a COMMIT that is not refused extends the prefix by its step
* `history_prefix`: the history of every reachable state
-/

namespace DuckdbMl.Migration

open Transition

variable {W ι : Type}

/-! ### What is left to apply -/

/-- **The history is the list without a suffix** exactly when that suffix is what is left. -/
theorem pending_eq_ok_iff {steps : List Step} {history : List Row} {rest : List Step} :
    pending steps history = .ok rest ↔
      ∃ done, steps = done ++ rest ∧ history = done.map Step.row := by
  constructor
  · intro h
    fun_induction pending steps history with
    | case1 steps =>
      cases h
      exact ⟨[], rfl, rfl⟩
    | case2 => cases h
    | case3 | case4 => cases h
    | case5 s steps r history hlt hgt heq ih =>
      obtain ⟨done, rfl, rfl⟩ := ih h
      have hrow : r = s.row := by
        obtain ⟨version, name, checksum⟩ := r
        have : version = s.version := le_antisymm (not_lt.mp hlt) (not_lt.mp hgt)
        rw [Step.row, this, heq.1, heq.2]
      exact ⟨s :: done, rfl, by rw [hrow, List.map_cons]⟩
    | case6 => cases h
  · rintro ⟨done, rfl, rfl⟩
    induction done with
    | nil => cases rest <;> rfl
    | cons s done ih =>
      have hself : ¬ s.version < s.row.version := lt_irrefl s.version
      have hself' : ¬ s.version > s.row.version := lt_irrefl s.version
      rw [List.cons_append, List.map_cons, pending, if_neg hself, if_neg hself',
        if_pos ⟨rfl, rfl⟩, ih]

/-! ### Lists in order -/

theorem pairwise_of_checkVersions {steps : List Step} (h : checkVersions steps = true) :
    steps.Pairwise fun a b => a.version < b.version := by
  induction steps with
  | nil => exact .nil
  | cons a rest ih =>
    cases rest with
    | nil => exact List.pairwise_singleton _ _
    | cons b rest =>
      rw [checkVersions, Bool.and_eq_true, decide_eq_true_eq] at h
      have hrest := ih h.2
      refine List.pairwise_cons.mpr ⟨fun c hc => ?_, hrest⟩
      rcases List.mem_cons.mp hc with rfl | hc
      · exact h.1
      · exact lt_trans h.1 ((List.pairwise_cons.mp hrest).1 c hc)

theorem checkVersions_of_list {steps list : List Step} (h : steps <+: list)
    (hlist : checkVersions list = true) : checkVersions steps = true := by
  obtain ⟨rest, rfl⟩ := h
  induction steps with
  | nil => rfl
  | cons a steps ih =>
    cases steps with
    | nil => rfl
    | cons b steps =>
      rw [List.cons_append, List.cons_append, checkVersions, Bool.and_eq_true] at hlist
      rw [checkVersions, hlist.1, Bool.true_and]
      exact ih hlist.2

/-! ### Transactions and steps -/

/-- A body that ran to its end: every statement in order, or any work of its code. -/
def Performed : Kind → List (Write W) → Prop
  | .statements list _, writes => writes = list.map .statement
  | .run, writes => ∃ done : List W, writes = done.map .work

/-- The transaction is the whole step: its body and its row. -/
def Applied (s : Step) (tx : Transaction W) : Prop := tx.rows = [s.row] ∧ Performed s.kind tx.writes

/-- The committed transactions are the first steps of the list, one for each and in order. -/
def Db.Prefix (list : List Step) (db : Db W) : Prop :=
  List.Forall₂ Applied (list.take db.log.length) db.log

namespace Db.Prefix

variable {list : List Step} {db db' : Db W}

theorem length_le (h : db.Prefix list) : db.log.length ≤ list.length := by
  have := h.length_eq
  rw [List.length_take] at this
  omega

theorem rows_eq (h : db.Prefix list) : db.rows = (list.take db.log.length).map Step.row := by
  have hrows : ∀ {steps : List Step} {log : List (Transaction W)}, List.Forall₂ Applied steps log →
      log.flatMap Transaction.rows = steps.map Step.row := by
    intro steps log h
    induction h with
    | nil => rfl
    | cons ha _ ih => rw [List.flatMap_cons, List.map_cons, ha.1, ih, List.singleton_append]
  exact hrows h

/-- The bookkeeping rows are already in the order of their versions. -/
theorem history_eq (h : db.Prefix list) (hlist : checkVersions list = true) :
    db.history = (list.take db.log.length).map Step.row := by
  rw [Db.history, h.rows_eq]
  refine List.Pairwise.insertionSort_eq (List.pairwise_map.mpr ?_)
  exact (pairwise_of_checkVersions (checkVersions_of_list (List.take_prefix _ _) hlist)).imp
    fun hlt => le_of_lt hlt

/-- **The primary key at work**: of a step whose predecessors are all recorded, a COMMIT that is
not refused extends the prefix by it. -/
theorem commit {j : ℕ} {s : Step} {tx : Transaction W} (h : db.Prefix list)
    (hj : j ≤ db.log.length) (hs : list[j]? = some s) (htx : Applied s tx)
    (hc : db.commit tx = some db') :
    db'.Prefix list ∧ db'.log = db.log ++ [tx] ∧ db'.created = db.created ∧
      db.log.length = j := by
  rw [Db.commit] at hc
  split at hc
  case isTrue => cases hc
  case isFalse hnew =>
    cases hc
    have hlen : db.log.length = j := by
      by_contra hne
      -- the step is already recorded, and so is its version
      have hmem : s.row ∈ db.rows := by
        rw [h.rows_eq]
        refine List.mem_map_of_mem (List.mem_of_getElem? (i := j) ?_)
        rw [List.getElem?_take_of_lt (by omega), hs]
      exact hnew ⟨s.row, by rw [htx.1]; exact List.mem_singleton_self _, s.row, hmem, rfl⟩
    refine ⟨?_, rfl, rfl, hlen⟩
    have htake : list.take (db.log ++ [tx]).length = list.take db.log.length ++ [s] := by
      rw [List.length_append, List.length_singleton, List.take_add_one, hlen, hs]
      rfl
    rw [Db.Prefix, htake]
    exact List.rel_append h (.cons htx .nil)

end Db.Prefix

/-! ### What a run knows -/

/-- Databases only grow. -/
def Db.Le (db db' : Db W) : Prop :=
  db.log.length ≤ db'.log.length ∧ (db.created = true → db'.created = true)

/-- A run of `steps` has come to `todo`: the steps before are recorded, and those it has itself
committed are a segment that ends there. -/
structure Run.At (list steps : List Step) (committed applied : List ℤ) (todo : List Step)
    (db : Db W) : Prop where
  within : steps <+: list
  created : db.created = true
  recorded : ∃ first j, first ≤ j ∧ j ≤ steps.length ∧ j ≤ db.log.length ∧
    todo = steps.drop j ∧ committed = ((steps.take j).drop first).map Step.version
  applied : applied.reverse = committed

/-- The body so far: what is written, and the statements left. -/
def Written (kind : Kind) (left : List String) (writes : List (Write W)) : Prop :=
  match kind with
  | .statements list _ => ∃ done, list = done ++ left ∧ writes = done.map .statement
  | .run => left = [] ∧ ∃ done : List W, writes = done.map .work

theorem written_list (kind : Kind) : Written kind kind.list ([] : List (Write W)) := by
  cases kind with
  | statements list canonical => exact ⟨[], rfl, rfl⟩
  | run => exact ⟨rfl, [], rfl⟩

theorem Written.statement {kind : Kind} {text : String} {left : List String}
    {writes : List (Write W)} (h : Written kind (text :: left) writes) :
    Written kind left (writes ++ [.statement text]) := by
  cases kind with
  | statements list canonical =>
    obtain ⟨done, rfl, rfl⟩ := h
    exact ⟨done ++ [text], by rw [List.append_assoc]; rfl, by rw [List.map_append]; rfl⟩
  | run => cases h.1

theorem Written.work {left : List String} {writes : List (Write W)}
    (h : Written .run left writes) (w : W) : Written .run left (writes ++ [.work w]) := by
  obtain ⟨hleft, done, rfl⟩ := h
  exact ⟨hleft, done ++ [w], by rw [List.map_append]; rfl⟩

/-- A body with no statement left has run to its end. -/
theorem Written.performed {kind : Kind} {writes : List (Write W)} (h : Written kind [] writes) :
    Performed kind writes := by
  cases kind with
  | statements list canonical =>
    obtain ⟨done, rfl, rfl⟩ := h
    rw [Performed, List.append_nil]
  | run => exact h.2

/-- What a run knows of the database where it is. -/
def Run.Knows (list : List Step) (p : Run W) (db : Db W) : Prop :=
  match p.position with
  | .idle | .raised | .returned (.error _) => True
  | .historyExists | .createHistory => p.steps <+: list ∧ p.committed = []
  | .readHistory => p.steps <+: list ∧ p.committed = [] ∧ db.created = true
  | .applyAll applied todo => Run.At list p.steps p.committed applied todo db
  | .perform applied s rest left writes =>
    Run.At list p.steps p.committed applied (s :: rest) db ∧ Written s.kind left writes
  | .record applied s rest writes =>
    Run.At list p.steps p.committed applied (s :: rest) db ∧ Performed s.kind writes
  | .commit applied s rest tx => Run.At list p.steps p.committed applied (s :: rest) db ∧ Applied s tx
  | .verify versions | .returned (.ok versions) =>
    Run.At list p.steps p.committed versions.reverse [] db

namespace Run

variable {list steps : List Step} {committed applied : List ℤ} {p : Run W} {db db' : Db W}

theorem At.mono {todo : List Step} (h : At list steps committed applied todo db)
    (hle : db.Le db') : At list steps committed applied todo db' := by
  obtain ⟨hsteps, hcreated, ⟨first, j, hfirst, hj, hlog, htodo, hcommitted⟩, happlied⟩ := h
  exact ⟨hsteps, hle.2 hcreated,
    ⟨first, j, hfirst, hj, le_trans hlog hle.1, htodo, hcommitted⟩, happlied⟩

/-- What a run knows survives the steps of the others. -/
theorem Knows.mono (h : p.Knows list db) (hle : db.Le db') : p.Knows list db' := by
  unfold Knows at h ⊢
  split at h
  case h_1 | h_2 | h_3 => trivial
  case h_4 | h_5 => exact h
  case h_6 => exact ⟨h.1, h.2.1, hle.2 h.2.2⟩
  case h_7 => exact h.mono hle
  case h_8 => exact ⟨h.1.mono hle, h.2⟩
  case h_9 => exact ⟨h.1.mono hle, h.2⟩
  case h_10 => exact ⟨h.1.mono hle, h.2⟩
  case h_11 | h_12 => exact h.mono hle

/-- The step a run has come to, in the list of all runs. -/
theorem At.head {s : Step} {rest : List Step}
    (h : At list steps committed applied (s :: rest) db) :
    ∃ first j, first ≤ j ∧ j < steps.length ∧ j ≤ db.log.length ∧ list[j]? = some s ∧
      steps[j]? = some s ∧ rest = steps.drop (j + 1) ∧
      committed = ((steps.take j).drop first).map Step.version := by
  obtain ⟨first, j, hfirst, hj, hlog, htodo, hcommitted⟩ := h.recorded
  have hlt : j < steps.length := by
    by_contra hge
    rw [List.drop_of_length_le (not_lt.mp hge)] at htodo
    cases htodo
  have hget : steps[j]? = some s := by
    rw [← List.head?_drop, ← htodo, List.head?_cons]
  have hrest : rest = steps.drop (j + 1) := by
    rw [← List.tail_drop, ← htodo, List.tail_cons]
  obtain ⟨more, hmore⟩ := h.within
  refine ⟨first, j, hfirst, hlt, hlog, ?_, hget, hrest, hcommitted⟩
  rw [← hmore, List.getElem?_append_left hlt, hget]

/-- The call under way keeps the prefix when it takes effect. -/
theorem effect_spec (hS : db.Prefix list) (hK : p.Knows list db) (he : p.effect db = some db') :
    db'.Prefix list ∧ db.Le db' := by
  unfold Run.effect at he
  split at he
  case h_1 =>
    cases he
    exact ⟨hS, le_refl _, fun _ => rfl⟩
  case h_2 applied s rest tx hp =>
    rw [Run.Knows, hp] at hK
    obtain ⟨first, j, -, -, hlog, hs, -⟩ := hK.1.head
    obtain ⟨hbegins, hlog', hcreated, -⟩ := hS.commit hlog hs hK.2 he
    refine ⟨hbegins, ?_, fun h => hcreated.trans h⟩
    rw [hlog', List.length_append]
    exact Nat.le_add_right _ _
  case h_3 =>
    cases he
    exact ⟨hS, le_refl _, id⟩

/-- A run whose COMMIT has taken effect has come to the next step. -/
theorem At.landed {s : Step} {rest : List Step} {tx : Transaction W}
    (hS : db.Prefix list) (h : At list steps committed applied (s :: rest) db) (htx : Applied s tx)
    (hc : db.commit tx = some db') :
    At list steps (committed ++ [s.version]) (s.version :: applied) rest db' := by
  obtain ⟨first, j, hfirst, hj, hlog, hs, hget, hrest, hcommitted⟩ := h.head
  obtain ⟨-, hlog', hcreated, hlen⟩ := hS.commit hlog hs htx hc
  refine ⟨h.within, hcreated.trans h.created, ⟨first, j + 1, by omega, hj, ?_, hrest, ?_⟩, ?_⟩
  · rw [hlog', List.length_append, List.length_singleton, hlen]
  · have htake : steps.take (j + 1) = steps.take j ++ [s] := by
      rw [List.take_add_one, hget]
      rfl
    rw [htake, List.drop_append_of_le_length (by rw [List.length_take]; omega), List.map_append,
      ← hcommitted]
    rfl
  · rw [List.reverse_cons, h.applied]

/-- What a history that is read leaves is a suffix of the run's list. -/
theorem At.read (hS : db.Prefix list) (hlist : checkVersions list = true)
    (hsteps : steps <+: list) (hcreated : db.created = true) (hcommitted : committed = [])
    {todo : List Step} (h : pending steps db.history = .ok todo) :
    At list steps committed [] todo db := by
  obtain ⟨done, hdone, hhistory⟩ := pending_eq_ok_iff.mp h
  have hlen : done.length = db.log.length := by
    have := congrArg List.length hhistory
    rw [hS.history_eq hlist, List.length_map, List.length_map, List.length_take] at this
    have := hS.length_le
    omega
  refine ⟨hsteps, hcreated, ⟨done.length, done.length, le_refl _, ?_, hlen.le, ?_, ?_⟩, ?_⟩
  · rw [hdone, List.length_append]
    exact Nat.le_add_right _ _
  · rw [hdone, List.drop_left]
  · rw [hcommitted, hdone, List.take_left, List.drop_length, List.map_nil]
  · rw [hcommitted, List.reverse_nil]

/-- Where an `Ok` leads, the run knows what it must. -/
theorem next_spec (hS : db.Prefix list) (hlist : checkVersions list = true)
    (hK : p.Knows list db) {position : Position W} (hn : p.next db = some position)
    (he : p.effect db = some db') : Knows list { p.landed with position := position } db' := by
  obtain ⟨steps, committed, at_⟩ := p
  cases at_ with
  | idle | returned | raised => cases hn
  | historyExists =>
    cases he
    cases hn
    cases hcreated : db.created with
    | true => exact ⟨hK.1, hK.2, hcreated⟩
    | false => exact ⟨hK.1, hK.2⟩
  | createHistory =>
    cases he
    cases hn
    exact ⟨hK.1, hK.2, rfl⟩
  -- the history is checked against the steps: what is pending is the rest of the list
  | readHistory =>
    cases he
    obtain ⟨hsteps, hcommitted, hcreated⟩ := hK
    simp only [next, hcreated, if_true, Option.some.injEq] at hn
    subst hn
    cases hpending : pending steps db.history with
    | error e => trivial
    | ok todo => exact At.read hS hlist hsteps hcreated hcommitted hpending
  | applyAll applied todo =>
    cases he
    cases todo with
    -- nothing is pending: the versions to report are those of the history
    | nil =>
      cases hn
      have hat : At list steps committed applied [] db := hK
      exact ⟨hat.within, hat.created, hat.recorded, by
        rw [List.reverse_reverse]
        exact hat.applied⟩
    | cons s rest =>
      cases hn
      exact ⟨hK, written_list s.kind⟩
  | perform applied s rest left writes =>
    cases he
    obtain ⟨hat, hwritten⟩ := hK
    cases left with
    | nil =>
      cases hn
      exact ⟨hat, hwritten.performed⟩
    | cons statement left =>
      cases hn
      exact ⟨hat, hwritten.statement⟩
  | record applied s rest writes =>
    cases he
    cases hn
    exact ⟨hK.1, rfl, hK.2⟩
  -- the step and its row are committed together
  | commit applied s rest tx =>
    cases hn
    exact At.landed hS hK.1 hK.2 he
  | verify versions =>
    cases he
    cases hn
    exact hK

theorem fail_spec (hS : db.Prefix list) (hK : p.Knows list db) {after : Bool}
    {position : Position W} {r : Db W × Run W} (h : p.fail db after position = some r) :
    r.1.Prefix list ∧ db.Le r.1 ∧ r.2.position = position := by
  unfold fail at h
  split at h
  case isTrue => cases h
  case isFalse =>
    split at h
    case isTrue =>
      obtain ⟨db', he, rfl⟩ := Option.map_eq_some_iff.mp h
      exact ⟨(effect_spec hS hK he).1, (effect_spec hS hK he).2, rfl⟩
    case isFalse =>
      cases h
      exact ⟨hS, ⟨le_refl _, id⟩, rfl⟩

/-- **One step** of a run keeps the prefix and what the run knows, and lets the database grow. -/
theorem step_spec (hS : db.Prefix list) (hlist : checkVersions list = true)
    (hK : p.Knows list db) {act : Act W} (hact : ∀ steps, act = .apply steps → steps <+: list)
    {p' : Run W} (h : p.step db act = some (db', p')) :
    db'.Prefix list ∧ p'.Knows list db' ∧ db.Le db' := by
  have hle : db.Le db := ⟨le_refl _, id⟩
  cases act with
  | apply steps =>
    rw [step] at h
    split at h
    case isFalse => cases h
    case isTrue =>
      cases h
      refine ⟨hS, ?_, hle⟩
      have hsteps := hact steps rfl
      rw [checkVersions_of_list hsteps hlist]
      exact ⟨hsteps, rfl⟩
  | ok =>
    obtain ⟨position, hn, h⟩ := Option.bind_eq_some_iff.mp h
    obtain ⟨db'', he, h⟩ := Option.bind_eq_some_iff.mp h
    cases h
    exact ⟨(effect_spec hS hK he).1, next_spec hS hlist hK hn he, (effect_spec hS hK he).2⟩
  | work w =>
    rw [step] at h
    split at h
    case h_2 => cases h
    case h_1 applied s rest left writes hp =>
      split at h
      case isFalse => cases h
      case isTrue hkind =>
        cases h
        obtain ⟨hat, hwritten⟩ : At list p.steps p.committed applied (s :: rest) db ∧
            Written s.kind left writes := by
          rw [Knows, hp] at hK
          exact hK
        refine ⟨hS, ⟨hat, ?_⟩, hle⟩
        rw [hkind] at hwritten ⊢
        exact hwritten.work w
  | error e after =>
    obtain ⟨hbegins, hgrow, hp⟩ := fail_spec hS hK h
    refine ⟨hbegins, ?_, hgrow⟩
    rw [Knows, hp]
    trivial
  | raise after =>
    obtain ⟨hbegins, hgrow, hp⟩ := fail_spec hS hK h
    refine ⟨hbegins, ?_, hgrow⟩
    rw [Knows, hp]
    trivial

end Run

/-! ### All runs -/

/-- Every run is given a prefix of one list. -/
def within (list : List Step) : Guard (World (Db W) ι (Run W)) (ι × Act W) :=
  fun _ l => ∀ steps, l.2 = .apply steps → steps <+: list

variable [DecidableEq ι] {list : List Step} {w : World (Db W) ι (Run W)}

theorem knows_of_reachable (hlist : checkVersions list = true)
    (h : (migrations ι W).system.Reachable (within list) w) :
    Interleaving.Modular (Db.Prefix list) (fun _ db p => p.Knows list db) w := by
  refine Interleaving.modular_of_reachable h (fun db hdb => ⟨?_, fun _ => trivial⟩)
    fun w l hw hl db p hs => ?_
  · have hlog : db.log = [] := hdb
    rw [Db.Prefix, hlog]
    exact .nil
  · obtain ⟨hS, hK, hle⟩ := Run.step_spec hw.shared hlist (hw.local_ l.1) hl hs
    exact ⟨hS, hK, fun i _ => (hw.local_ i).mono hle⟩

/-- The calls of a run that finds nothing to apply, each with an `Ok`. -/
def rerun (W : Type) (steps : List Step) : List (Act W) := [.apply steps, .ok, .ok, .ok, .ok]

section Rerun

omit [DecidableEq ι]

variable {steps : List Step} {p : Run W} {db : Db W} {i : ι}

theorem exec_rerun
    (hp : p.finished = true) (hsteps : checkVersions steps = true) (hcreated : db.created = true)
    (hpending : pending steps db.history = .ok []) :
    (migrations ι W).execParty i db p (rerun W steps) =
      some (db, ⟨steps, [], .returned (.ok [])⟩) := by
  simp [rerun, Interleaving.execParty, migrations, Run.step, hp, hsteps, Run.next, Run.effect,
    Run.landed, hcreated, hpending]

/-- The difference between a list and a longer history is its first row after the list. -/
theorem pending_ahead (steps : List Step) (r : Row) (more : List Row) :
    pending steps (steps.map Step.row ++ r :: more) =
      mismatch r.version r.name "none" (describe r.version r.name r.checksum) := by
  induction steps with
  | nil => rfl
  | cons s steps ih =>
    have hself : ¬ s.version < s.row.version := lt_irrefl s.version
    have hself' : ¬ s.version > s.row.version := lt_irrefl s.version
    rw [List.map_cons, List.cons_append, pending, if_neg hself, if_neg hself', if_pos ⟨rfl, rfl⟩,
      ih]

theorem exec_ahead {r : Row} {more : List Row}
    (hp : p.finished = true) (hsteps : checkVersions steps = true) (hcreated : db.created = true)
    (hmore : db.history = steps.map Step.row ++ r :: more) :
    (migrations ι W).execParty i db p ((rerun W steps).take 3) = some (db, ⟨steps, [], .returned
      (mismatch r.version r.name "none" (describe r.version r.name r.checksum))⟩) := by
  have hahead := pending_ahead steps r more
  rw [← hmore] at hahead
  simp [rerun, Interleaving.execParty, migrations, Run.step, hp, hsteps, Run.next, Run.effect,
    Run.landed, hcreated, hahead, mismatch]

end Rerun

/-- A run that has returned `Ok` has recorded its whole list. -/
theorem Run.Knows.returned {p : Run W} {db : Db W} {versions : List ℤ}
    (hS : db.Prefix list) (hlist : checkVersions list = true) (h : p.Knows list db)
    (hp : p.position = .returned (.ok versions)) :
    versions = p.committed ∧ (∃ first, versions = (p.steps.drop first).map Step.version) ∧
      p.steps.map Step.row <+: db.history ∧ p.steps <+: list ∧ db.created = true := by
  rw [Knows, hp] at h
  obtain ⟨hsteps, hcreated, ⟨first, j, -, hj, hlog, htodo, hcommitted⟩, happlied⟩ := h
  rw [List.reverse_reverse] at happlied
  have hall : p.steps.length ≤ j := List.drop_eq_nil_iff.mp htodo.symm
  refine ⟨happlied, ⟨first, ?_⟩, ?_, hsteps, hcreated⟩
  · rw [happlied, hcommitted, List.take_of_length_le hall]
  · rw [hS.history_eq hlist]
    refine List.IsPrefix.map _ ?_
    obtain ⟨more, rfl⟩ := hsteps
    rw [List.prefix_take_iff]
    exact ⟨List.prefix_append _ _, by omega⟩

/-- **The recorded history** of every reachable state is a prefix of the list, and the database
holds the bodies of exactly its steps, each once and in order. A run that returns versions has
committed exactly those, at the end of its list, and its whole list is recorded. Run again, it
returns none when nothing more is recorded, and otherwise names the first row beyond its list. -/
theorem history_prefix (hlist : checkVersions list = true)
    (h : (migrations ι W).system.Reachable (within list) w) :
    (∃ n ≤ list.length, w.shared.history = (list.take n).map Step.row ∧
        List.Forall₂ Applied (list.take n) w.shared.log) ∧
      (∀ i versions, (w.parties i).position = .returned (.ok versions) →
        versions = (w.parties i).committed ∧
          (∃ first, versions = ((w.parties i).steps.drop first).map Step.version) ∧
          (w.parties i).steps.map Step.row <+: w.shared.history ∧
          (w.shared.history = (w.parties i).steps.map Step.row →
            (migrations ι W).execParty i w.shared (w.parties i) (rerun W (w.parties i).steps) =
              some (w.shared, ⟨(w.parties i).steps, [], .returned (.ok [])⟩)) ∧
          ∀ r more, w.shared.history = (w.parties i).steps.map Step.row ++ r :: more →
            (migrations ι W).execParty i w.shared (w.parties i)
                ((rerun W (w.parties i).steps).take 3) =
              some (w.shared, ⟨(w.parties i).steps, [], .returned
                (mismatch r.version r.name "none" (describe r.version r.name r.checksum))⟩)) ∧
      ∀ steps history rest, pending steps history = .ok rest ↔
        ∃ done, steps = done ++ rest ∧ history = done.map Step.row := by
  obtain ⟨hS, hK⟩ := knows_of_reachable hlist h
  refine ⟨⟨_, hS.length_le, hS.history_eq hlist, hS⟩, fun i versions hp => ?_,
    fun _ _ _ => pending_eq_ok_iff⟩
  -- from here on one party that has returned is run again, on a history that only grows
  obtain ⟨hcommitted, hsegment, hrecorded, hsteps, hcreated⟩ := (hK i).returned hS hlist hp
  have hfinished : (w.parties i).finished = true := by rw [Run.finished, hp]
  have hcheck := checkVersions_of_list hsteps hlist
  refine ⟨hcommitted, hsegment, hrecorded, fun hall => ?_, fun r more hmore => ?_⟩
  · have hnone : pending (w.parties i).steps w.shared.history = .ok [] :=
      pending_eq_ok_iff.mpr ⟨(w.parties i).steps, (List.append_nil _).symm, hall⟩
    exact exec_rerun hfinished hcheck hcreated hnone
  · exact exec_ahead hfinished hcheck hcreated hmore

/-! ### A longer list applied meanwhile -/

/-- A table, and then code that fills it. -/
def seed : List Step :=
  [⟨1, "create", "c4", .statements ["CREATE TABLE t(i INTEGER)"] "CREATE TABLE t(i INTEGER)"⟩,
    ⟨2, "fill", "f1", .run⟩]

/-- A run applies the first step, then another one both. -/
def overtaken : List (Bool × Act Unit) :=
  [.apply (seed.take 1), .ok, .ok, .ok, .ok, .ok, .ok, .ok, .ok, .ok, .ok].map (false, ·) ++
    [.apply seed, .ok, .ok, .ok, .work (), .ok, .ok, .ok, .ok, .ok].map (true, ·)

def withinSeed (_ : World (Db Unit) Bool (Run Unit)) (l : Bool × Act Unit) : Bool :=
  match l.2 with
  | .apply steps => steps.isPrefixOf seed
  | _ => true

/-- What a run has returned, and what is recorded. -/
def observed (w : World (Db Unit) Bool (Run Unit)) : Bool × List Step × Option (List ℤ) × List Row :=
  (w.shared.created, (w.parties false).steps,
    match (w.parties false).position with
    | .returned (.ok versions) => some versions
    | _ => none,
    w.shared.rows)

theorem overtaken_observed :
    ((migrations Bool Unit).system.execWithin withinSeed ⟨⟨false, []⟩, fun _ => .init⟩
      overtaken).map observed = some (true, seed.take 1, some [1], seed.map Step.row) := by
  decide +kernel

theorem exists_overtaken : ∃ w, (migrations Bool Unit).system.Reachable (within seed) w ∧
    w.shared.created = true ∧ (w.parties false).steps = seed.take 1 ∧
    (w.parties false).position = .returned (.ok [1]) ∧
    w.shared.history = seed.map Step.row := by
  have hguard : ∀ w l, withinSeed w l = true → within seed w l := by
    rintro w ⟨i, act⟩ hl steps rfl
    exact List.isPrefixOf_iff_prefix.mp hl
  obtain ⟨w, hw, hobs⟩ := System.exists_reachable_of_execWithin hguard
    (show (migrations Bool Unit).system.start ⟨⟨false, []⟩, fun _ => .init⟩ from
      ⟨rfl, fun _ => rfl⟩) overtaken_observed
  obtain ⟨hcreated, hsteps, hreturned, hrows⟩ := by
    simpa only [observed, Prod.mk.injEq] using hobs
  refine ⟨w, hw, hcreated, hsteps, ?_, ?_⟩
  · split at hreturned
    case h_1 versions hp => rw [hp, Option.some.inj hreturned]
    case h_2 => cases hreturned
  · rw [Db.history, hrows]
    rfl

/-- The recorded history in a run of the system where a longer list overtakes a shorter one. -/
theorem history_prefix_overtaken : ∃ w : World (Db Unit) Bool (Run Unit),
    w.shared.history = seed.map Step.row ∧ [1] = (w.parties false).committed ∧
      ∃ n ≤ seed.length, w.shared.history = (seed.take n).map Step.row ∧
        List.Forall₂ Applied (seed.take n) w.shared.log := by
  obtain ⟨w, hw, -, -, hp, hhistory⟩ := exists_overtaken
  obtain ⟨hbegins, hreturned, -⟩ := history_prefix (by decide) hw
  exact ⟨w, hhistory, (hreturned false _ hp).1, hbegins⟩

/-- **A longer list applied meanwhile** makes a run refuse its own list the next time. -/
theorem rerun_refused : ¬ ∀ (w : World (Db Unit) Bool (Run Unit)) i versions,
    (migrations Bool Unit).system.Reachable (within seed) w →
    (w.parties i).position = .returned (.ok versions) →
    (migrations Bool Unit).execParty i w.shared (w.parties i) (rerun Unit (w.parties i).steps) =
      some (w.shared, ⟨(w.parties i).steps, [], .returned (.ok [])⟩) := by
  intro hall
  obtain ⟨w, hw, hcreated, hsteps, hp, hhistory⟩ := exists_overtaken
  have h := hall w false [1] hw hp
  have hahead := pending_ahead (seed.take 1) ⟨2, "fill", "f1"⟩ []
  have hmore : w.shared.history = (seed.take 1).map Step.row ++ [⟨2, "fill", "f1"⟩] := hhistory
  rw [← hmore] at hahead
  have hfinished : (w.parties false).finished = true := by rw [Run.finished, hp]
  have hcheck : checkVersions (seed.take 1) = true := rfl
  simp [rerun, Interleaving.execParty, migrations, Run.step, hfinished, hsteps, hcheck, Run.next,
    Run.effect, Run.landed, hcreated, hahead, mismatch] at h

end DuckdbMl.Migration
