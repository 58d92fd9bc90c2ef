import DuckdbMl.SchemaEpoch.Quiet

/-!
# Schema-epoch soundness

A published result should have executed in a snapshot in which the statement's parameter types
are the recorded ones. The stubs leave two gaps. A change becomes visible before its increment,
so an epoch read in between confirms types that the catalog no longer has. And the recheck takes
every move of the epoch to be the statement's own when the statement is itself a CREATE, ALTER or
DROP. Outside these gaps every published result matches its snapshot.

## Main definitions

* `Session.Tracked`, `Pc.Tracked`: what a connection knows of its statements' types
* `Timely`: the steps outside the two gaps

## Main results

* `published_matches`: in every run of timely steps every published result matches
* `published_stale`: without timeliness a result is published in a snapshot with other types
-/

namespace DuckdbMl.SchemaEpoch

open Transition

variable {Cat Sql Ty κ : Type} {L : Language Cat Sql Ty}

/-- While the epoch is the recorded one and nothing is owed, the statement has these parameter
types in the catalog `c`. -/
def Current (L : Language Cat Sql Ty) (e : Engine Cat) (u : Prop) (epoch : ℕ) (sql : Sql)
    (types : List Ty) (c : Cat) : Prop :=
  epoch ≤ e.epoch ∧ (e.epoch = epoch → ¬ u → L.parameterTypes sql c = some types)

def Session.Tracked (L : Language Cat Sql Ty) (e : Engine Cat) (u : Prop)
    (x : Session Cat Sql Ty) : Prop :=
  ∀ n p epoch, x.statements n = some p → p.validatedEpoch = some epoch →
    Current L e u epoch p.sql p.parameterTypes e.catalog ∧
      ∀ c, x.snapshot = some c → Current L e u epoch p.sql p.parameterTypes c

def Session.Advanced (e : Engine Cat) (x : Session Cat Sql Ty) : Prop :=
  ∀ n p epoch, x.statements n = some p → p.validatedEpoch = some epoch → epoch < e.epoch

def Validation.Holds (L : Language Cat Sql Ty) (e : Engine Cat) (x : Session Cat Sql Ty)
    (p : Prepared Sql Ty) : Validation → Prop
  | .noParameters => p.parameterTypes = []
  | .checked => ∃ c, x.snapshot = some c ∧ L.parameterTypes p.sql c = some p.parameterTypes
  | .skipped epoch => p.validatedEpoch = some epoch ∧
      (L.changesSchema p.sql = true → L.parameterTypes p.sql (x.access e) = some p.parameterTypes)

def Validation.Held (L : Language Cat Sql Ty) (x : Session Cat Sql Ty)
    (p : Prepared Sql Ty) (snapshot : Cat) : Validation → Prop
  | .noParameters => p.parameterTypes = []
  | .checked => L.parameterTypes p.sql snapshot = some p.parameterTypes
  | .skipped epoch =>
    if L.changesSchema p.sql then L.parameterTypes p.sql snapshot = some p.parameterTypes
    else p.validatedEpoch = some epoch ∧ x.snapshot = some snapshot

def Prepared.Matches (L : Language Cat Sql Ty) (p : Prepared Sql Ty) (snapshot : Cat) : Prop :=
  p.parameterTypes = [] ∨ L.parameterTypes p.sql snapshot = some p.parameterTypes

def Pc.Tracked (L : Language Cat Sql Ty) (e : Engine Cat) (u : Prop) (x : Session Cat Sql Ty) :
    Pc Cat Sql Ty → Prop
  | .entered => x.Advanced e
  | .preparing _ before => before ≤ e.epoch
  | .validating _ | .stale _ => x.explicit = false → x.snapshot = none
  | .checking _ before => before ≤ e.epoch ∧ (x.explicit = false → x.snapshot = none)
  | .prepared sql before types =>
    x.explicit = false → Current L e u before sql types e.catalog
  | .matched n before => ∀ p, x.statements n = some p →
      (∃ c, x.snapshot = some c ∧ L.parameterTypes p.sql c = some p.parameterTypes) ∧
      (x.explicit = false → Current L e u before p.sql p.parameterTypes e.catalog)
  | .ready n v => ∀ p, x.statements n = some p → v.Holds L e x p
  | .running n v => ∀ p, x.statements n = some p →
      v.Holds L e x p ∧ (L.changesSchema p.sql = true → x.Advanced e)
  | .ran n v ok snapshot => ok = true → ∀ p, x.statements n = some p → v.Held L x p snapshot
  | .rechecking n v snapshot => ∀ p, x.statements n = some p → v.Held L x p snapshot
  | .comparing _ snapshot => x.snapshot = some snapshot
  | .finishing n snapshot | .settled _ (.publish n snapshot) =>
    ∀ p, x.statements n = some p → p.Matches L snapshot
  | _ => True

/-- A change of another connection could still slip in unseen: the statement changes the schema
itself, its check was skipped, and its snapshot has not started. -/
def Session.Exposed (L : Language Cat Sql Ty) (x : Session Cat Sql Ty) : Prop :=
  ∃ n epoch p, (x.pc = .ready n (.skipped epoch) ∨ x.pc = .running n (.skipped epoch)) ∧
    x.statements n = some p ∧ L.changesSchema p.sql = true ∧ x.snapshot = none

/-- The step makes a schema change visible to the other connections. -/
def Session.reveals (x : Session Cat Sql Ty) : Act Cat Sql → Bool
  | .run (some _) => x.pc matches .entered && !x.inTransaction
  | .commit true => (x.pc matches .idle | .finishing _ _) && !x.pending.isEmpty
  | _ => false

/-- The step reads the epoch and relies on its being the recorded one -/
def Session.Confirms (L : Language Cat Sql Ty) (e : Engine Cat) (x : Session Cat Sql Ty)
    (a : Act Cat Sql) : Prop :=
  a = .next ∧ ∃ n p, x.statements n = some p ∧ p.validatedEpoch = some e.epoch ∧
    ((∃ snapshot, x.pc = .rechecking n (.skipped e.epoch) snapshot ∧ L.changesSchema p.sql = false) ∨
      x.pc = .validating n ∧ p.parameterTypes ≠ [] ∧ L.changesSchema p.sql = true)

variable {e e' : Engine Cat} {u u' : Prop} {x : Session Cat Sql Ty}

theorem Current.carry {epoch : ℕ} {sql : Sql} {types : List Ty} {c : Cat}
    (hc : Carried e u e' u') (h : Current L e u epoch sql types c) :
    Current L e' u' epoch sql types c := by
  grind [Current, Carried]

theorem Current.carry_catalog {epoch : ℕ} {sql : Sql} {types : List Ty}
    (hc : Carried e u e' u') (h : Current L e u epoch sql types e.catalog) :
    Current L e' u' epoch sql types e'.catalog := by
  grind [Current, Carried]

theorem Session.Tracked.carry (hc : Carried e u e' u') (h : x.Tracked L e u) :
    x.Tracked L e' u' := fun n p epoch hn hp =>
  ⟨(h n p epoch hn hp).1.carry_catalog hc, fun c hs => ((h n p epoch hn hp).2 c hs).carry hc⟩

theorem Session.Advanced.carry (hc : Carried e u e' u') (h : x.Advanced e) : x.Advanced e' := by
  grind [Session.Advanced, Carried]

theorem Validation.Holds.carry {p : Prepared Sql Ty} {v : Validation}
    (hs : ∀ epoch, v = .skipped epoch → L.changesSchema p.sql = true → x.snapshot = none →
      e'.catalog = e.catalog) (h : v.Holds L e x p) : v.Holds L e' x p := by
  cases v with
  | noParameters => exact h
  | checked => exact h
  | skipped epoch =>
    refine ⟨h.1, fun hp => ?_⟩
    have hc := h.2 hp
    cases hx : x.snapshot with
    | none => simpa [Session.access, hx, hs epoch rfl hp hx] using hc
    | some c => simpa [Session.access, hx] using hc

/-- Steps of the other connections. -/
theorem Pc.Tracked.carry {pc : Pc Cat Sql Ty} (hpc : x.pc = pc) (hc : Carried e u e' u')
    (hx : x.Exposed L → e'.catalog = e.catalog) (h : pc.Tracked L e u x) :
    pc.Tracked L e' u' x := by
  cases pc
  case settled v after => cases after <;> simp_all [Pc.Tracked]
  case ready n v =>
    exact fun p hp => (h p hp).carry fun epoch hv hd hs =>
      hx ⟨n, epoch, p, .inl (hv ▸ hpc), hp, hd, hs⟩
  case running n v =>
    exact fun p hp => ⟨(h p hp).1.carry fun epoch hv hd hs =>
      hx ⟨n, epoch, p, .inr (hv ▸ hpc), hp, hd, hs⟩, fun hd => ((h p hp).2 hd).carry hc⟩
  all_goals grind [Pc.Tracked, Current, Carried, Session.Advanced]

@[simp] theorem Session.tracked_goto {pc : Pc Cat Sql Ty} :
    (x.goto pc).Tracked L e u ↔ x.Tracked L e u := Iff.rfl

theorem Session.Tracked.accessed (h : x.Tracked L e u) : (x.accessed e).Tracked L e u := by
  unfold Session.accessed
  split
  · intro n p epoch hn hp
    obtain ⟨hc, hs⟩ := h n p epoch hn hp
    refine ⟨hc, fun c hx => ?_⟩
    simp only [Session.access, Option.some.injEq] at hx
    cases hy : x.snapshot with
    | none => simpa [← hx, hy] using hc
    | some d => simpa [← hx, hy] using hs d hy
  · exact h

theorem Session.Tracked.ended (h : x.Tracked L e u) : x.ended.Tracked L e u := by
  intro n p epoch hn hp
  have hn : x.statements n = some p := by
    simp only [Session.ended, Option.filter_eq_some_iff] at hn
    exact hn.1
  exact ⟨(h n p epoch hn hp).1, by simp [Session.ended]⟩

theorem Session.Tracked.opened {b : Bool} (h : x.Tracked L e u) :
    (x.opened b).Tracked L e u := fun n p epoch hn hp =>
  ⟨(h n p epoch hn hp).1, by simp [Session.opened]⟩

/-- A statement whose recorded epoch has passed says nothing about the current epoch. -/
theorem Session.Advanced.tracked (h : x.Advanced e) : x.Tracked L e u := by
  intro n p epoch hn hp
  have := h n p epoch hn hp
  exact ⟨⟨by omega, fun he => by omega⟩, fun c _ => ⟨by omega, fun he => by omega⟩⟩

theorem Session.Tracked.record {n : ℕ} {p : Prepared Sql Ty} (h : x.Tracked L e u)
    (hn : ∀ epoch, p.validatedEpoch = some epoch →
      Current L e u epoch p.sql p.parameterTypes e.catalog ∧
        ∀ c, x.snapshot = some c → Current L e u epoch p.sql p.parameterTypes c) :
    (x.record n p).Tracked L e u := by
  intro m q epoch hm hq
  by_cases hmn : m = n
  · subst hmn
    obtain rfl : p = q := by simpa [Session.record] using hm
    exact hn epoch hq
  · exact h m q epoch (by simpa [Session.record, hmn] using hm) hq

theorem Session.stableEpoch_eq_some {before epoch : ℕ} (h : x.stableEpoch e before = some epoch) :
    x.explicit = false ∧ e.epoch = before ∧ epoch = before := by
  simp only [Session.stableEpoch] at h
  grind

theorem Session.Move.tracked {a : Act Cat Sql} {r : Outcome Cat Sql Ty}
    (h : Session.Move L e x a r) (hx : x.Consistent L) (hc : Carried e u r.1 u')
    (ht : x.Tracked L e u) (hp : x.pc.Tracked L e u x) : r.2.1.Tracked L r.1 u' := by
  have ht' := ht.carry hc
  cases h
  case begin => exact ht'.opened
  case commit ok _ _ => cases ok with
    | true => exact ht'.ended
    | false => exact ht'
  case rollback ok _ _ => cases ok with
    | true => exact ht'.ended
    | false => exact ht'
  case other => exact ht'.accessed
  case enter => exact ht'
  -- a statement of the user's changes the schema: every record is of an epoch before the next one
  case run change hpc =>
    rw [hpc] at hp
    cases change with
    | none => exact ht'
    | some f =>
      cases hi : x.inTransaction with
      | true =>
        simp only [Session.runChange, hi, if_true]
        exact Session.Advanced.tracked (x := (x.changed e f).goto (.executed false)) hp
      | false => simpa [Session.runChange, hi] using ht'
  case leave => exact ht'
  case settle visible after _ => cases after <;> exact ht'
  case prepare => exact ht'
  case prepared => exact ht'.accessed
  case unprepared => exact ht'.accessed
  -- outside a transaction a statement is recorded with the epoch of its preparation, which has
  -- not passed
  case register sql before types n hpc hn =>
    rw [hpc] at hp
    refine ht'.record fun epoch hv => ?_
    obtain ⟨hf, he, rfl⟩ := Session.stableEpoch_eq_some hv
    have hi := hx.transaction (by simp [hpc, Pc.internal, Pc.executing])
    have hs := (hx.outside (hi.trans hf)).2.1
    exact ⟨(hp hf).carry_catalog hc, by simp [hs]⟩
  case execute => exact ht'
  case beginning => exact ht'.opened (b := false)
  case validate => exact ht'
  case stale => exact ht'
  case check => exact ht'.accessed
  case mismatch => exact ht'.accessed
  -- the types were checked against the snapshot; the epoch is the one recorded with them
  case revalidate n before epoch p hpc hn hs =>
    rw [hpc] at hp
    obtain ⟨hf, he, rfl⟩ := Session.stableEpoch_eq_some hs
    obtain ⟨⟨c, hc', ht''⟩, hcur⟩ := hp p hn
    refine ht'.record fun epoch' hv => ?_
    obtain rfl : epoch = epoch' := by simpa using hv
    refine ⟨(hcur hf).carry_catalog hc, fun d hd => ?_⟩
    obtain rfl : c = d := by simpa [hc'] using hd
    exact Current.carry hc ⟨by omega, fun _ _ => ht''⟩
  case unstable => exact ht'
  case change => exact ht'
  case plain => exact ht'
  -- a prepared statement may change the schema as well
  case runPrepared n v p change hpc hn =>
    rw [hpc] at hp
    cases change with
    | none => exact ht'.accessed
    | some f =>
      cases hd : L.changesSchema p.sql with
      | true =>
        simp only [Session.runPrepared, hd, if_true]
        exact Session.Advanced.tracked (x := (x.changed e f).goto _) ((hp p hn).2 hd)
      | false =>
        simp only [Session.runPrepared, hd, Bool.false_eq_true, if_false] at ht' ⊢
        exact ht'.accessed
  case ran ok _ _ _ _ => cases ok <;> exact ht'
  case recheck => exact ht'
  case compare => exact ht'.accessed
  case differ => exact ht'.accessed
  case publish => exact ht'
  case settlePrepared ok _ _ => cases ok with
    | true => exact ht'.ended
    | false => exact ht'
  case abort ok _ => cases ok with
    | true => exact ht'.ended
    | false => exact ht'
  case fail => exact ht'
  case withdraw => exact ht'


theorem Validation.Holds.held {p : Prepared Sql Ty} {v : Validation} {y : Session Cat Sql Ty}
    (h : v.Holds L e x p) (hs : L.changesSchema p.sql = false → y.snapshot = some (x.access e)) :
    v.Held L y p (x.access e) := by
  cases v with
  | noParameters => exact h
  | checked =>
    obtain ⟨c, hc, ht⟩ := h
    simpa [Validation.Held, Session.access, hc] using ht
  | skipped epoch =>
    simp only [Validation.Held]
    split
    case isTrue hd => exact h.2 hd
    case isFalse hd => exact ⟨h.1, hs (by simpa using hd)⟩

theorem Session.accessed_snapshot (hx : x.inTransaction = true) :
    (x.accessed e).snapshot = some (x.access e) := by
  simp [Session.accessed, hx]

@[simp] theorem Session.accessed_statements : (x.accessed e).statements = x.statements := by
  unfold Session.accessed
  split <;> rfl

@[simp] theorem Session.accessed_explicit : (x.accessed e).explicit = x.explicit := by
  unfold Session.accessed
  split <;> rfl

theorem Session.access_eq_catalog (hx : x.snapshot = none) : x.access e = e.catalog := by
  simp [Session.access, hx]

theorem Session.Tracked.advanced (h : x.Tracked L e u) : x.Advanced e.advance :=
  fun n p epoch hn hp => Nat.lt_succ_of_le (h n p epoch hn hp).1.1

theorem Pc.tracked_abort : x.abort.pc.Tracked L e u x.abort := by
  unfold Session.abort
  split <;> trivial

theorem Session.Move.trackedPc {a : Act Cat Sql} {r : Outcome Cat Sql Ty}
    (h : Session.Move L e x a r) (hx : x.Consistent L) (hc : Carried e u r.1 u')
    (hu : x.Confirms L e a → ¬ u)
    (ht : x.Tracked L e u) (hp : x.pc.Tracked L e u x) : r.2.1.pc.Tracked L r.1 u' r.2.1 := by
  have executing : x.pc.executing = true → (x.accessed e).snapshot = some (x.access e) :=
    fun h => Session.accessed_snapshot (hx.executing h)
  cases h
  case begin hpc _ => simp [Session.opened, hpc, Pc.Tracked]
  case commit ok _ _ => cases ok <;> trivial
  case rollback ok _ _ => cases ok <;> trivial
  case other hpc =>
    rw [Session.accessed]
    split <;> simp [hpc, Pc.Tracked]
  case enter => exact ht.advanced
  case run change hpc =>
    cases change with
    | none => trivial
    | some f => cases hi : x.inTransaction <;> simp [Session.runChange, hi, Pc.Tracked]
  case leave => trivial
  case settle visible after _ => cases after <;> trivial
  case prepare => exact Nat.le_refl _
  -- outside a transaction there is no snapshot, and the types are those of the catalog
  case prepared sql before types hpc hs =>
    rw [hpc] at hp
    intro hf
    have hi := hx.transaction (by simp [hpc, Pc.internal, Pc.executing])
    have hn := (hx.outside (hi.trans (by simpa using hf))).2.1
    rw [Session.access_eq_catalog hn] at hs
    exact Current.carry_catalog hc ⟨hp, fun _ _ => hs⟩
  case unprepared => trivial
  case register => trivial
  case execute n p hpc hn =>
    cases hf : x.explicit <;> simp [hf, Pc.Tracked]
  case beginning => exact fun _ => rfl
  -- without parameters there is nothing to check
  case validate n p hpc hn =>
    rw [hpc] at hp
    simp only [Session.goto_pc, Session.validate]
    split
    case isTrue he =>
      intro q hq
      obtain rfl : p = q := by simpa [hn] using hq
      exact List.isEmpty_iff.mp he
    case isFalse he =>
      split
      -- the recorded epoch is the present one, and no change is visible that it does not count
      case isTrue hv =>
        intro q hq
        obtain rfl : p = q := by simpa [hn] using hq
        refine ⟨hv, fun hd => ?_⟩
        have hu := hu ⟨rfl, n, p, hn, hv, .inr ⟨hpc, by simpa using he, hd⟩⟩
        obtain ⟨hcat, hsnap⟩ := ht n p _ hn hv
        cases hs : x.snapshot with
        | none => simpa [Session.access, hs] using hcat.2 rfl hu
        | some c => simpa [Session.access, hs] using (hsnap c hs).2 rfl hu
      case isFalse hv => exact hp
  case stale n hpc =>
    rw [hpc] at hp
    exact ⟨Nat.le_refl _, hp⟩
  -- the check reads the snapshot that the execution will have
  case check n before p hpc hn hs =>
    rw [hpc] at hp
    intro q hq
    obtain rfl : p = q := by simpa [hn] using hq
    refine ⟨⟨_, executing (by simp [hpc, Pc.executing]), hs⟩, fun hf => ?_⟩
    rw [Session.access_eq_catalog (hp.2 (by simpa using hf))] at hs
    exact Current.carry_catalog hc ⟨hp.1, fun _ _ => hs⟩
  case mismatch => exact Pc.tracked_abort
  case revalidate n before epoch p hpc hn hs =>
    rw [hpc] at hp
    intro q hq
    obtain rfl : _ = q := by simpa [Session.record] using hq
    exact (hp p hn).1
  case unstable n before hpc =>
    rw [hpc] at hp
    exact fun q hq => (hp q hq).1
  case change n v p hpc hn hd =>
    rw [hpc] at hp
    refine fun q hq => ⟨?_, fun _ => ht.advanced⟩
    cases v <;> exact hp q hq
  case plain n v p hpc hn hd =>
    rw [hpc] at hp
    intro q hq
    obtain rfl : p = q := by simpa [hn] using hq
    exact ⟨hp p hq, by simp [hd]⟩
  -- what validation established carries over to the snapshot the statement executed in; a
  -- statement that changes the schema is exempt
  case runPrepared n v p change hpc hn =>
    rw [hpc] at hp
    cases change with
    | none => intro h; cases h
    | some f =>
      cases hd : L.changesSchema p.sql with
      | true =>
        simp only [Session.runPrepared, hd, if_true]
        intro _ q hq
        obtain rfl : p = q := by simpa [Session.changed, hn] using hq
        exact (hp p hn).1.held (by simp [hd])
      | false =>
        simp only [Session.runPrepared, hd, Bool.false_eq_true, if_false]
        intro _ q hq
        obtain rfl : p = q := by simpa [hn] using hq
        exact (hp p hn).1.held fun _ => executing (by simp [hpc, Pc.executing])
  case ran n v ok snapshot p hpc hn =>
    rw [hpc] at hp
    cases ok with
    | false => exact Pc.tracked_abort
    | true => exact fun q hq => hp rfl q hq
  -- with the epoch unchanged, the snapshot of the execution is the one that was recorded
  case recheck n v snapshot p hpc hn =>
    rw [hpc] at hp
    have hv := hp p hn
    have only : ∀ q, x.statements n = some q → q = p := by simp [hn, eq_comm]
    cases v with
    | noParameters => exact fun q hq => .inl (only q hq ▸ hv)
    | checked => exact fun q hq => .inr (only q hq ▸ hv)
    | skipped epoch =>
      simp only [Session.goto_pc, Session.recheck]
      cases hd : L.changesSchema p.sql with
      | true =>
        simp only [Validation.Held, hd, if_true] at hv
        simp only [or_true, if_true]
        exact fun q hq => .inr (only q hq ▸ hv)
      | false =>
        simp only [Validation.Held, hd, Bool.false_eq_true, if_false] at hv
        simp only [Bool.false_eq_true, or_false]
        split
        case isTrue he =>
          subst he
          have hu := hu ⟨rfl, n, p, hn, hv.1, .inl ⟨snapshot, hpc, hd⟩⟩
          exact fun q hq => .inr (only q hq ▸ ((ht n p _ hn hv.1).2 _ hv.2).2 rfl hu)
        case isFalse => exact hv.2
  case compare n snapshot p hpc hn hs =>
    rw [hpc] at hp
    intro q hq
    obtain rfl : p = q := by simpa [hn] using hq
    have hp : x.snapshot = some snapshot := hp
    simp only [Session.access, hp, Option.getD_some] at hs
    exact .inr hs
  case differ => exact Pc.tracked_abort
  case publish => trivial
  case settlePrepared n snapshot ok hpc _ =>
    rw [hpc] at hp
    cases ok with
    | false => trivial
    | true => 
      intro p hn
      exact hp p (Option.filter_eq_some_iff.mp hn).1
  case abort ok _ => cases ok <;> trivial
  case fail pc hpc _ _ _ _ => rcases hpc with ⟨rfl, -⟩ | rfl | rfl <;> trivial
  case withdraw => trivial

/-- The types recorded for a published result are those of the snapshot it executed in, or the
statement has no parameters. -/
def Published.Matches (L : Language Cat Sql Ty) (r : Published Cat Sql Ty) : Prop :=
  r.recorded = [] ∨ L.parameterTypes r.sql r.snapshot = some r.recorded

/-- What a step publishes matches. -/
theorem Session.Move.published {a : Act Cat Sql} {r : Outcome Cat Sql Ty}
    (h : Session.Move L e x a r) (hp : x.pc.Tracked L e u x) :
    ∀ q, r.2.2 = some q → q.Matches L := by
  have resume : ∀ n snapshot, (∀ p, x.statements n = some p → p.Matches L snapshot) →
      ∀ q, (x.statements n).map (fun p => Published.mk p.sql p.parameterTypes snapshot) = some q →
      q.Matches L := by
    intro n snapshot hm q hq
    obtain ⟨p, hn, rfl⟩ := Option.map_eq_some_iff.mp hq
    exact hm p hn
  intro q hq
  cases h
  case settle visible after hpc =>
    rw [hpc] at hp
    cases after with
    | publish n snapshot => exact resume n snapshot hp q hq
    | idle => cases hq
    | abort => cases hq
  case publish n snapshot hpc _ =>
    rw [hpc] at hp
    exact resume n snapshot hp q hq
  case run change _ => cases change <;> grind [Session.runChange]
  case runPrepared change _ _ => cases change <;> grind [Session.runPrepared]
  all_goals grind [Session.commit, Session.rollback]

/-- A step that reveals no change leaves the committed catalog as it is. -/
theorem Session.Move.catalog {a : Act Cat Sql} {r : Outcome Cat Sql Ty}
    (h : Session.Move L e x a r) (hr : x.reveals a = false) : r.1.catalog = e.catalog := by
  cases h
  case run change hpc => cases change <;> grind [Session.runChange, Session.reveals]
  case runPrepared n v p change _ _ => cases change <;> grind [Session.runPrepared]
  case settle => simp only [Engine.schemaLeave]; split <;> rfl
  case ran => simp only [Engine.schemaLeave]; split <;> rfl
  all_goals grind [Session.commit, Session.rollback, Session.reveals, Engine.advance,
    Engine.publish]

variable [DecidableEq Ty] [DecidableEq κ]

/-- The step falls in neither gap: when it relies on an epoch read no increment is owed, and it
reveals no change while a connection is exposed. -/
def Timely (L : Language Cat Sql Ty) : Guard (World κ Cat Sql Ty) (κ × Act Cat Sql) := fun w a =>
  ((w.sessions a.1).Confirms L w.engine a.2 → ¬ Unannounced w) ∧
    ((w.sessions a.1).reveals a.2 = true → ∀ k, ¬ (w.sessions k).Exposed L)

/-- Every connection knows what it tracks, and every published result matches. -/
structure World.Sound (L : Language Cat Sql Ty) (w : World κ Cat Sql Ty) : Prop where
  consistent : w.Consistent L
  tracked : ∀ k, (w.sessions k).Tracked L w.engine (Unannounced w)
  pc : ∀ k, (w.sessions k).pc.Tracked L w.engine (Unannounced w) (w.sessions k)
  published : ∀ r ∈ w.published, r.Matches L

theorem World.step_sound {w w' : World κ Cat Sql Ty} {a : κ × Act Cat Sql} (hw : w.Sound L)
    (hg : Timely L w a) (h : (system L κ).step w a = some w') : w'.Sound L := by
  have hc : Quiet w w' := World.step_quiet hw.consistent h
  have hcons := World.step_consistent hw.consistent h
  obtain ⟨r, hm, rfl⟩ := World.step_eq_some h
  refine ⟨hcons, fun k => ?_, fun k => ?_, fun q hq => ?_⟩
  · by_cases hk : k = a.1
    · subst hk
      simpa using hm.tracked (hw.consistent _) hc (hw.tracked _) (hw.pc _)
    · simpa [hk] using (hw.tracked k).carry hc
  · by_cases hk : k = a.1
    · subst hk
      simpa using hm.trackedPc (hw.consistent _) hc hg.1 (hw.tracked _) (hw.pc _)
    · have hcat : (w.sessions k).Exposed L → r.1.catalog = w.engine.catalog := fun hx =>
        hm.catalog (by simpa using fun hr => hg.2 hr k hx)
      simpa [hk] using (hw.pc k).carry rfl hc hcat
  · rcases List.mem_append.mp hq with hq | hq
    · exact hm.published (hw.pc _) q (by simpa using hq)
    · exact hw.published q hq

theorem sound_of_reachable {w : World κ Cat Sql Ty} (h : (system L κ).Reachable (Timely L) w) :
    w.Sound L := by
  refine h.induction (fun w hw => ⟨fun k => ?_, fun k => ?_, fun k => ?_, ?_⟩)
    fun _ _ _ hw hg hs => World.step_sound hw hg hs
  · rw [hw.1 k]
    exact Session.fresh_consistent
  · rw [hw.1 k]
    intro n p epoch hn
    cases hn
  · rw [hw.1 k]
    trivial
  · rw [hw.2]
    simp

/-- **Schema-epoch soundness**: in a run of timely steps every published result matches, and a
window whose ends read the same epoch with nothing owed at its end saw no change. -/
theorem published_matches {w : World κ Cat Sql Ty} (h : (system L κ).Reachable (Timely L) w) :
    (∀ r ∈ w.published, r.Matches L) ∧
      ∀ as w', (system L κ).Run Guard.free w as w' → w'.engine.epoch = w.engine.epoch →
        ¬ Unannounced w' → w'.engine = w.engine := by
  have hw := sound_of_reachable h
  exact ⟨hw.published, fun as w' hr he hu => ((quiet_of_run hw.consistent hr).2 he hu).2⟩

/-- The type of a column `x`. -/
inductive Column
  | integer
  | varchar
deriving DecidableEq

/-- `SELECT … WHERE x = $1`, and `CREATE TABLE … AS` of it. -/
inductive Statement
  | select
  | create
deriving DecidableEq

/-- The parameter has the type of the column. -/
def columns : Language Column Statement Column where
  parameterTypes _ c := some [c]
  changesSchema s := s == .create

/-- A start over an INTEGER column. -/
def integers (κ : Type) : World κ Column Statement Column where
  engine := ⟨0, .integer, 0⟩
  sessions _ := Session.fresh
  published := []

theorem integers_start (ι : Type) [DecidableEq ι] : (system columns ι).start (integers ι) :=
  ⟨fun _ => rfl, rfl⟩

/-- A connection prepares a statement as its number 0. -/
def preparing (sql : Statement) : List (Act Column Statement) := [.prepare sql, .next, .register 0]

/-- It executes the statement up to its validation, and from there on. -/
def validating : List (Act Column Statement) := [.execute 0, .begin, .next]
def executing : List (Act Column Statement) :=
  [.next, .run (some id), .next, .next, .commit true, .next]

/-- `ALTER TABLE … ALTER x TYPE VARCHAR`, between its two increments. -/
def altering : Act Column Statement := .run (some fun _ => .varchar)

/-- The change becomes visible after the statement is prepared, and its second increment comes
after the statement has executed. -/
def late : List (Bool × Act Column Statement) :=
  (true, .alter) :: (preparing .select).map (Prod.mk false) ++ (true, altering) ::
    (validating ++ executing).map (Prod.mk false)

/-- The change comes between the skipped check and the snapshot of a `CREATE TABLE … AS`. -/
def hidden : List (Bool × Act Column Statement) :=
  (preparing .create ++ validating).map (Prod.mk false) ++
    [(true, .alter), (true, altering), (true, .next)] ++ executing.map (Prod.mk false)

/-- The check finds other parameter types: the connection rolls back, and prepares and executes the
statement anew as its number 1. -/
def retrying : List (Act Column Statement) :=
  [.next, .next, .rollback true, .next, .prepare .select, .next, .register 1, .execute 1, .begin,
    .next]

/-- The change comes whole between two executions. -/
def between : List (Bool × Act Column Statement) :=
  (preparing .select ++ validating ++ executing).map (Prod.mk false) ++
    [(true, .alter), (true, altering), (true, .next)] ++
    (validating ++ retrying ++ executing).map (Prod.mk false)

/-- A step of one of two connections that relies on no epoch read while an increment is owed, and
reveals no change while a check has been skipped. -/
def timely (w : World Bool Column Statement Column) (l : Bool × Act Column Statement) : Bool :=
  (!((w.sessions l.1).pc matches .validating _ | .rechecking _ _ _) ||
      !((w.sessions false).owes || (w.sessions true).owes)) &&
    (!(w.sessions l.1).reveals l.2 || [false, true].all fun k =>
      !((w.sessions k).pc matches .ready _ (.skipped _) | .running _ (.skipped _)))

theorem timely_of_check (w : World Bool Column Statement Column) (l : Bool × Act Column Statement)
    (h : timely w l = true) : Timely columns w l := by
  simp only [timely, Bool.and_eq_true, Bool.or_eq_true, Bool.not_eq_true', Bool.or_eq_false_iff,
    List.all_cons, List.all_nil] at h
  obtain ⟨howed, hexposed⟩ := h
  constructor
  · rintro ⟨-, n, p, -, -, hpc⟩ ⟨k, hk⟩
    obtain ⟨hf, ht⟩ := howed.resolve_left (by
      obtain ⟨snapshot, hpc, -⟩ | ⟨hpc, -⟩ := hpc <;> simp [hpc])
    cases k <;> simp_all
  · rintro hr k ⟨n, epoch, p, hpc, -⟩
    obtain ⟨hf, ht, -⟩ := hexposed.resolve_left (by simp [hr])
    cases k <;> obtain hpc | hpc := hpc <;> simp_all

/-- The connection publishes before and after another's change of the column, each time in a
snapshot with the recorded types. -/
theorem published_matches_altered : ∃ w : World Bool Column Statement Column,
    (system columns Bool).Reachable (Timely columns) w ∧
      w.published = [⟨.select, [.varchar], .varchar⟩, ⟨.select, [.integer], .integer⟩] ∧
      ∀ r ∈ w.published, r.Matches columns := by
  obtain ⟨w, hw, hp⟩ := System.exists_reachable_of_execWithin (S := system columns Bool)
    (l := between) (f := World.published)
    (b := [⟨.select, [.varchar], .varchar⟩, ⟨.select, [.integer], .integer⟩])
    timely_of_check (integers_start Bool) rfl
  exact ⟨w, hw, hp, (published_matches hw).1⟩

/-- **The two gaps**: a result is published in a snapshot with other parameter types. -/
theorem published_stale :
    (∃ w : World Bool Column Statement Column, (system columns Bool).Reachable Guard.free w ∧
      ∃ r ∈ w.published, r.sql = .select ∧ ¬ r.Matches columns) ∧
    ∃ w : World Bool Column Statement Column, (system columns Bool).Reachable Guard.free w ∧
      ∃ r ∈ w.published, r.sql = .create ∧ ¬ r.Matches columns := by
  constructor
  · obtain ⟨w, hw, hp⟩ := System.exists_reachable_of_exec (S := system columns Bool)
      (l := late) (f := World.published) (b := [⟨.select, [.integer], .varchar⟩])
      (integers_start Bool) rfl
    exact ⟨w, hw, _, hp ▸ List.mem_singleton_self _, rfl, by simp [Published.Matches, columns]⟩
  · obtain ⟨w, hw, hp⟩ := System.exists_reachable_of_exec (S := system columns Bool)
      (l := hidden) (f := World.published) (b := [⟨.create, [.integer], .varchar⟩])
      (integers_start Bool) rfl
    exact ⟨w, hw, _, hp ▸ List.mem_singleton_self _, rfl, by simp [Published.Matches, columns]⟩

end DuckdbMl.SchemaEpoch
