import DuckdbMl.Pool.Basic

/-!
# Creating a pool for Async

The scheduler reserves a maintenance helper and a helper for each request; on the maintenance
helper the database is opened, and a connection for each request helper.

## Main definitions

* `Failure`, `combine`: failures, with those of the releases
* `reserve`, `initializePool`, `create`: the creation of a pool

## Main results

* `create_allOrNothing`: a pool of all resources, or a failure after which none is left
-/

namespace DuckdbMl.Pool.Async

/-- `E` are the expected errors and `X` the exceptions. -/
inductive Failure (E X : Type)
  | expected (e : E)
  | raised (x : X)
  | duringCleanup (primary cleanup : Failure E X)
  | duringCancellation (f : Failure E X)

variable {E X α : Type}

/-- A failure is a part of another. -/
inductive Contains (g : Failure E X) : Failure E X → Prop
  | self : Contains g g
  | primary {p c : Failure E X} : Contains g p → Contains g (.duringCleanup p c)
  | cleanup {p c : Failure E X} : Contains g c → Contains g (.duringCleanup p c)
  | cancellation {f : Failure E X} : Contains g f → Contains g (.duringCancellation f)

abbrev Answer (E X : Type) := Except (Failure E X) Unit

/-- How each acquisition and each release ends, and whether the maintenance helper takes work. -/
structure Surroundings (E X : Type) where
  acquire : Resource → Answer E X
  release : Resource → Answer E X
  offload : Answer E X

/-- `held` are the helpers that a reservation holds, and `acquired` those that have a connection;
the last comes first. -/
structure State where
  log : List Event
  held : List ℕ
  acquired : List ℕ

def combine : Except (Failure E X) α → Answer E X → Except (Failure E X) α
  | result, .ok () => result
  | .ok _, .error e => .error e
  | .error primary, .error cleanup => .error (.duringCleanup primary cleanup)

section Definitions

variable (env : Surroundings E X)

def acquire (r : Resource) (s : State) : Answer E X × State :=
  match env.acquire r with
  | .error f => (.error f, s)
  | .ok () => (.ok (), { s with log := s.log ++ [.acquired r] })

/-- The release counts as one also when it fails. -/
def release (r : Resource) (s : State) : Answer E X × State :=
  (env.release r, { s with log := s.log ++ [.released r] })

/-- One release after another, each combined with the result so far. -/
def releaseEach (resource : ℕ → Resource) :
    List ℕ → Except (Failure E X) α → State → Except (Failure E X) α × State
  | [], result, s => (result, s)
  | i :: rest, result, s =>
    let (cleanup, s) := release env (resource i) s
    releaseEach resource rest (combine result cleanup) s

def releaseHelpers (helpers : List ℕ) (s : State) : Answer E X × State :=
  releaseEach env .helper helpers (.ok ()) s

/-- `acquire` of a reservation. -/
def acquireHelper (s : State) : Except (Failure E X) ℕ × State :=
  let helper := s.held.length
  match acquire env (.helper helper) s with
  | (.error f, s) => (.error f, s)
  | (.ok (), s) => (.ok helper, { s with held := helper :: s.held })

def loop (maintenance : ℕ) : ℕ → List ℕ → State → Except (Failure E X) (ℕ × List ℕ) × State
  | 0, requests, s => (.ok (maintenance, requests.reverse), s)
  | remaining + 1, requests, s =>
    match acquireHelper env s with
    | (.error f, s) => (.error f, s)
    | (.ok helper, s) => loop maintenance remaining (helper :: requests) s

def reserve (connections : ℕ) (s : State) : Except (Failure E X) (ℕ × List ℕ) × State :=
  let reserved : Except (Failure E X) (ℕ × List ℕ) × State :=
    match acquireHelper env s with
    | (.error f, s) => (.error f, s)
    | (.ok maintenance, s) => loop env maintenance connections [] s
  match reserved with
  | (.ok held, s) => (.ok held, s)
  | (.error f, s) =>
    let (released, s) := releaseHelpers env s.held.reverse s
    (combine (.error f) released, s)

/-- A connection for each helper. -/
def connect : List ℕ → State → Except (Failure E X) (List ℕ) × State
  | [], s => (.ok s.acquired.reverse, s)
  | helper :: rest, s =>
    match acquire env (.connection helper) s with
    | (.error f, s) => (.error f, s)
    | (.ok (), s) => connect rest { s with acquired := helper :: s.acquired }

/-- The connections that have been acquired are closed, and the database. -/
def closeAll (f : Failure E X) (s : State) : Except (Failure E X) (List ℕ) × State :=
  let (result, s) := releaseEach env .connection s.acquired.reverse (.error f) s
  let (cleanup, s) := release env .database s
  (combine result cleanup, s)

def initializePool (requestHelpers : List ℕ) (s : State) : Except (Failure E X) (List ℕ) × State :=
  match env.offload with
  | .error f => (.error f, s)
  | .ok () =>
    match acquire env .database s with
    | (.error f, s) => (.error f, s)
    | (.ok (), s) =>
      match connect env requestHelpers s with
      | (.ok slots, s) => (.ok slots, s)
      | (.error f, s) => closeAll env f s

/-- The helpers, and the helpers that have a connection. -/
structure Created where
  maintenance : ℕ
  helpers : List ℕ
  slots : List ℕ
  deriving DecidableEq, Repr

def create (connections : ℕ) (s : State) : Except (Failure E X) Created × State :=
  match reserve env connections s with
  | (.error f, s) => (.error f, s)
  | (.ok (maintenance, requests), s) =>
    match initializePool env requests s with
    | (.error f, s) =>
      let (released, s) := releaseHelpers env (maintenance :: requests) s
      (combine (.error f) released, s)
    | (.ok slots, s) => (.ok ⟨maintenance, maintenance :: requests, slots⟩, s)

end Definitions

def start : State := ⟨[], [], []⟩

/-! ### Releases -/

section Releases

variable {env : Surroundings E X} {f g p q : Failure E X}

theorem Contains.trans {h : Failure E X} (hfg : Contains f g) (hgh : Contains g h) :
    Contains f h := by
  induction hgh with
  | self => exact hfg
  | primary _ ih => exact ih.primary
  | cleanup _ ih => exact ih.cleanup
  | cancellation _ ih => exact ih.cancellation

/-- What was a failure stays a part of it. -/
theorem combine_error (p : Failure E X) (c : Answer E X) :
    ∃ q, combine (.error p : Except (Failure E X) α) c = .error q ∧ Contains p q ∧
      ∀ g, c = .error g → Contains g q := by
  rcases c with e | _
  · refine ⟨_, rfl, .primary .self, fun g h => ?_⟩
    cases h
    exact .cleanup .self
  · exact ⟨p, rfl, .self, fun g h => by cases h⟩

theorem releaseEach_log (resource : ℕ → Resource) (is : List ℕ) (result : Except (Failure E X) α)
    (s : State) : (releaseEach env resource is result s).2 =
      { s with log := s.log ++ is.map fun i => .released (resource i) } := by
  induction is generalizing result s with
  | nil => rw [List.map_nil, List.append_nil]; rfl
  | cons i is ih =>
    rw [releaseEach, release]
    dsimp only
    rw [ih, List.map_cons, List.append_assoc]
    rfl

/-- Releases after a failure report it, and theirs. -/
theorem releaseEach_error (resource : ℕ → Resource) (is : List ℕ) (p : Failure E X) (s : State) :
    ∃ q, (releaseEach env resource is (.error p : Except (Failure E X) α) s).1 = .error q ∧
      Contains p q ∧ ∀ i ∈ is, ∀ g, env.release (resource i) = .error g → Contains g q := by
  induction is generalizing p s with
  | nil => exact ⟨p, rfl, .self, fun i hi => absurd hi List.not_mem_nil⟩
  | cons i is ih =>
    obtain ⟨p', hp', hpp', hcleanup⟩ := @combine_error E X α p (env.release (resource i))
    obtain ⟨q, hq, hp'q, hrest⟩ := ih p' { s with log := s.log ++ [.released (resource i)] }
    refine ⟨q, ?_, hpp'.trans hp'q, fun j hj g hg => ?_⟩
    · rw [releaseEach, release]
      dsimp only
      rw [hp']
      exact hq
    · rcases List.mem_cons.mp hj with rfl | hj
      · exact (hcleanup g hg).trans hp'q
      · exact hrest j hj g hg

/-- Releases from a success on report theirs. -/
theorem releaseEach_ok (resource : ℕ → Resource) (is : List ℕ) (s : State) {i : ℕ} (hi : i ∈ is)
    (hg : env.release (resource i) = .error g) :
    ∃ q, (releaseEach env resource is (.ok () : Answer E X) s).1 = .error q ∧ Contains g q := by
  induction is generalizing s with
  | nil => exact absurd hi List.not_mem_nil
  | cons j is ih =>
    rw [releaseEach, release]
    dsimp only
    cases hj : env.release (resource j) with
    | error e =>
      obtain ⟨q, hq, heq, hrest⟩ := @releaseEach_error E X Unit env resource is e
        { s with log := s.log ++ [.released (resource j)] }
      refine ⟨q, hq, ?_⟩
      rcases List.mem_cons.mp hi with rfl | hi
      · rw [hg] at hj
        cases hj
        exact heq
      · exact hrest i hi g hg
    | ok u =>
      rcases List.mem_cons.mp hi with rfl | hi
      · rw [hg] at hj
        cases hj
      · exact ih _ hi

/-- The failure of a step after which helpers are released. -/
theorem combine_releaseHelpers (f : Failure E X) (helpers : List ℕ) (s : State) :
    ∃ q, combine (.error f : Except (Failure E X) α) (releaseHelpers env helpers s).1 = .error q ∧
      Contains f q ∧ ∀ i ∈ helpers, ∀ g, env.release (.helper i) = .error g → Contains g q := by
  obtain ⟨q, hq, hfq, hcleanup⟩ := @combine_error E X α f (releaseHelpers env helpers s).1
  refine ⟨q, hq, hfq, fun i hi g hg => ?_⟩
  obtain ⟨p, hp, hgp⟩ := releaseEach_ok .helper helpers s hi hg
  exact hgp.trans (hcleanup p hp)

end Releases

/-! ### Acquisitions -/

section Acquisitions

variable {env : Surroundings E X}

/-- Acquisitions one after another: all of them succeed, or the first `done` of them before a
failure. -/
inductive Stopped (env : Surroundings E X) (resource : ℕ → Resource) (is : List ℕ) :
    List ℕ → Option (Failure E X) → Prop
  | all : (∀ i ∈ is, env.acquire (resource i) = .ok ()) → Stopped env resource is is none
  | failed {done : List ℕ} {i : ℕ} {rest : List ℕ} {f : Failure E X} : is = done ++ i :: rest →
      (∀ j ∈ done, env.acquire (resource j) = .ok ()) → env.acquire (resource i) = .error f →
      Stopped env resource is done (some f)

theorem Stopped.cons {resource : ℕ → Resource} {i : ℕ} {is done : List ℕ}
    {o : Option (Failure E X)} (h : Stopped env resource is done o)
    (hi : env.acquire (resource i) = .ok ()) : Stopped env resource (i :: is) (i :: done) o := by
  cases h with
  | all hall => exact .all (List.forall_mem_cons.mpr ⟨hi, hall⟩)
  | failed he hdone hf =>
    exact .failed (congrArg (i :: ·) he) (List.forall_mem_cons.mpr ⟨hi, hdone⟩) hf

theorem Stopped.of_none {resource : ℕ → Resource} {is done : List ℕ}
    (h : Stopped env resource is done none) :
    is = done ∧ ∀ i ∈ is, env.acquire (resource i) = .ok () := by
  cases h with
  | all hok => exact ⟨rfl, hok⟩

theorem Stopped.of_some {resource : ℕ → Resource} {is done : List ℕ} {f : Failure E X}
    (h : Stopped env resource is done (some f)) : ∃ i rest, is = done ++ i :: rest ∧
      (∀ j ∈ done, env.acquire (resource j) = .ok ()) ∧ env.acquire (resource i) = .error f := by
  cases h with
  | failed he hdone hf => exact ⟨_, _, he, hdone, hf⟩

theorem acquire_ok {r : Resource} (h : env.acquire r = .ok ()) (s : State) :
    acquire env r s = (.ok (), { s with log := s.log ++ [.acquired r] }) := by rw [acquire, h]

theorem acquire_error {r : Resource} {f : Failure E X} (h : env.acquire r = .error f) (s : State) :
    acquire env r s = (.error f, s) := by rw [acquire, h]

/-- The helpers that a reservation acquires. -/
theorem loop_spec (m n : ℕ) (requests : List ℕ) (s : State) :
    ∃ done o, Stopped env .helper (List.range' s.held.length n) done o ∧
      loop env m n requests s = (o.elim (.ok (m, requests.reverse ++ done)) .error,
        ⟨s.log ++ done.map (fun i => .acquired (.helper i)), done.reverse ++ s.held,
          s.acquired⟩) := by
  induction n generalizing requests s with
  | zero =>
    refine ⟨[], none, .all fun i hi => absurd hi List.not_mem_nil, ?_⟩
    simp [loop]
  | succ n ih =>
    cases hi : env.acquire (.helper s.held.length) with
    | error f =>
      refine ⟨[], some f, .failed rfl (fun j hj => absurd hj List.not_mem_nil) hi, ?_⟩
      rw [loop, acquireHelper, acquire_error hi]
      simp
    | ok u =>
      obtain ⟨done, o, hstopped, hrun⟩ := ih (s.held.length :: requests)
        ⟨s.log ++ [.acquired (.helper s.held.length)], s.held.length :: s.held, s.acquired⟩
      refine ⟨s.held.length :: done, o, hstopped.cons hi, ?_⟩
      rw [loop, acquireHelper, acquire_ok hi]
      dsimp only
      rw [hrun]
      cases o <;> simp

/-- The connections that are acquired. -/
theorem connect_spec (helpers : List ℕ) (s : State) :
    ∃ done o, Stopped env .connection helpers done o ∧
      connect env helpers s = (o.elim (.ok (s.acquired.reverse ++ done)) .error,
        ⟨s.log ++ done.map (fun i => .acquired (.connection i)), s.held,
          done.reverse ++ s.acquired⟩) := by
  induction helpers generalizing s with
  | nil =>
    refine ⟨[], none, .all fun i hi => absurd hi List.not_mem_nil, ?_⟩
    simp [connect]
  | cons i rest ih =>
    cases hi : env.acquire (.connection i) with
    | error f =>
      refine ⟨[], some f, .failed rfl (fun j hj => absurd hj List.not_mem_nil) hi, ?_⟩
      rw [connect, acquire_error hi]
      simp
    | ok u =>
      obtain ⟨done, o, hstopped, hrun⟩ := ih
        ⟨s.log ++ [.acquired (.connection i)], s.held, i :: s.acquired⟩
      refine ⟨i :: done, o, hstopped.cons hi, ?_⟩
      rw [connect, acquire_ok hi]
      dsimp only
      rw [hrun]
      cases o <;> simp

end Acquisitions

/-! ### The creation -/

section Creation

variable {env : Surroundings E X} {n : ℕ}

/-- A step at which a creation can fail. -/
inductive Attempt
  | resource (r : Resource)
  | offload

def attempt (env : Surroundings E X) : Attempt → Answer E X
  | .resource r => env.acquire r
  | .offload => env.offload

/-- The steps of a creation, in order. -/
def attempts (connections : ℕ) : List Attempt :=
  (List.range (connections + 1)).map (fun i => .resource (.helper i)) ++
    .offload :: .resource .database ::
      (List.range' 1 connections).map fun i => .resource (.connection i)

def Attempt.resource? : Attempt → Option Resource
  | .resource r => some r
  | .offload => none

/-- What is acquired by the steps. -/
def acquisitions (as : List Attempt) : List Resource := as.filterMap Attempt.resource?

/-- The first step that fails, and the steps before it. -/
structure Broken (env : Surroundings E X) (n : ℕ) (before : List Attempt) (f : Failure E X) :
    Prop where
  failed : ∃ a after, attempts n = before ++ a :: after ∧ attempt env a = .error f
  succeeded : ∀ b ∈ before, attempt env b = .ok ()

theorem range_succ_eq_cons : List.range (n + 1) = 0 :: List.range' 1 n := by
  rw [List.range_eq_range', List.range'_succ]

/-- A reservation of all helpers, or of none. -/
theorem reserve_cases (env : Surroundings E X) (n : ℕ) :
    (∀ i ∈ List.range (n + 1), env.acquire (.helper i) = .ok ()) ∧
      reserve env n start = (.ok (0, List.range' 1 n),
        ⟨(List.range (n + 1)).map fun i => .acquired (.helper i), (List.range (n + 1)).reverse,
          []⟩) ∨
    ∃ done f q, Stopped env .helper (List.range (n + 1)) done (some f) ∧
      reserve env n start = (.error q, ⟨(done.map Resource.helper).map .acquired ++
        (done.map Resource.helper).map .released, done.reverse, []⟩) ∧ Contains f q ∧
      ∀ i ∈ done, ∀ g, env.release (.helper i) = .error g → Contains g q := by
  have hrange := @range_succ_eq_cons n
  cases h0 : env.acquire (.helper 0) with
  | error f =>
    refine .inr ⟨[], f, f, .failed hrange (fun j hj => absurd hj List.not_mem_nil) h0, ?_, .self,
      fun i hi => absurd hi List.not_mem_nil⟩
    rw [reserve, acquireHelper, show start.held.length = 0 from rfl, acquire_error h0]
    rfl
  | ok u =>
    obtain ⟨done, o, hstopped, hrun⟩ := @loop_spec E X env 0 n [] ⟨[.acquired (.helper 0)], [0], []⟩
    have hall : Stopped env .helper (List.range (n + 1)) (0 :: done) o :=
      hrange ▸ hstopped.cons h0
    cases o with
    | none =>
      obtain ⟨hdone, hok⟩ := hall.of_none
      obtain rfl : done = List.range' 1 n := (List.cons.inj (hdone.symm.trans hrange)).2
      refine .inl ⟨hok, ?_⟩
      rw [reserve, acquireHelper, show start.held.length = 0 from rfl, acquire_ok h0]
      simp only [start, List.nil_append]
      rw [hrun]
      simp [hrange]
    | some f =>
      obtain ⟨q, hq, hfq, hreleases⟩ := @combine_releaseHelpers E X (ℕ × List ℕ) env f (0 :: done)
        ⟨(0 :: done).map fun i => .acquired (.helper i), (0 :: done).reverse, []⟩
      refine .inr ⟨0 :: done, f, q, hall, ?_, hfq, hreleases⟩
      rw [reserve, acquireHelper, show start.held.length = 0 from rfl, acquire_ok h0]
      simp only [start, List.nil_append]
      rw [hrun]
      simp only [List.reverse_append, List.reverse_reverse, List.reverse_cons, List.reverse_nil,
        List.nil_append, List.cons_append, Option.elim_some, List.map_cons] at hq ⊢
      rw [hq, releaseHelpers, releaseEach_log]
      simp
      rfl

/-- A database with all connections, or a failure that leaves neither. -/
theorem initializePool_cases (env : Surroundings E X) (requests : List ℕ) (log : List Event)
    (held : List ℕ) :
    (env.offload = .ok () ∧ env.acquire .database = .ok () ∧
      (∀ i ∈ requests, env.acquire (.connection i) = .ok ()) ∧
      initializePool env requests ⟨log, held, []⟩ = (.ok requests,
        ⟨log ++ (Resource.database :: requests.map .connection).map .acquired, held,
          requests.reverse⟩)) ∨
    (∃ f, (env.offload = .error f ∨ env.offload = .ok () ∧ env.acquire .database = .error f) ∧
      initializePool env requests ⟨log, held, []⟩ = (.error f, ⟨log, held, []⟩)) ∨
    env.offload = .ok () ∧ env.acquire .database = .ok () ∧ ∃ done f q,
      Stopped env .connection requests done (some f) ∧
      initializePool env requests ⟨log, held, []⟩ = (.error q,
        ⟨log ++ (Resource.database :: done.map .connection).map .acquired ++
          (done.map Resource.connection ++ [Resource.database]).map .released, held, done.reverse⟩) ∧
      Contains f q ∧ (∀ i ∈ done, ∀ g, env.release (.connection i) = .error g → Contains g q) ∧
      ∀ g, env.release .database = .error g → Contains g q := by
  cases hoffload : env.offload with
  | error f =>
    exact .inr (.inl ⟨f, .inl rfl, by rw [initializePool, hoffload]⟩)
  | ok u =>
    cases hdatabase : env.acquire .database with
    | error f =>
      refine .inr (.inl ⟨f, .inr ⟨rfl, rfl⟩, ?_⟩)
      rw [initializePool, hoffload, acquire_error hdatabase]
    | ok u =>
      obtain ⟨done, o, hstopped, hrun⟩ := @connect_spec E X env requests
        ⟨log ++ [.acquired .database], held, []⟩
      cases o with
      | none =>
        obtain ⟨rfl, hok⟩ := hstopped.of_none
        refine .inl ⟨rfl, rfl, hok, ?_⟩
        rw [initializePool, hoffload, acquire_ok hdatabase]
        dsimp only
        rw [hrun]
        simp
      | some f =>
        obtain ⟨p, hp, hfp, hconnections⟩ := @releaseEach_error E X (List ℕ) env .connection done f
          ⟨log ++ [.acquired .database] ++ done.map fun i => .acquired (.connection i), held,
            done.reverse⟩
        obtain ⟨q, hq, hpq, hcleanup⟩ := @combine_error E X (List ℕ) p (env.release .database)
        refine .inr (.inr ⟨rfl, rfl, done, f, q, hstopped, ?_, hfp.trans hpq,
          fun i hi g hg => (hconnections i hi g hg).trans hpq, hcleanup⟩)
        rw [initializePool, hoffload, acquire_ok hdatabase]
        dsimp only
        rw [hrun]
        simp only [Option.elim_some, List.append_nil, closeAll, List.reverse_reverse, release]
        rw [hp, releaseEach_log, hq]
        simp
        rfl

/-! The steps before each kind of failure. -/

theorem acquisitions_attempts : acquisitions (attempts n) = (List.range (n + 1)).map .helper ++
    .database :: (List.range' 1 n).map .connection := by
  simp [acquisitions, attempts, Attempt.resource?, List.filterMap_map, Function.comp_def,
    List.filterMap_cons]

theorem Broken.nodup {before : List Attempt} {f : Failure E X} (h : Broken env n before f) :
    (acquisitions before).Nodup := by
  obtain ⟨a, after, he, -⟩ := h.failed
  have hnodup : (acquisitions (attempts n)).Nodup := by
    rw [acquisitions_attempts]
    refine List.Nodup.append ?_ (List.nodup_cons.mpr ⟨by simp, ?_⟩) ?_
    · exact List.nodup_range.map fun _ _ h => Resource.helper.inj h
    · exact (List.nodup_range' 1).map fun _ _ h => Resource.connection.inj h
    · simp [List.Disjoint]
  refine hnodup.sublist ?_
  rw [he]
  exact (List.sublist_append_left before _).filterMap _

section Before

variable {done : List ℕ} {f : Failure E X}

/-- The helpers, as steps. -/
def helperSteps (is : List ℕ) : List Attempt := is.map fun i => .resource (.helper i)

def connectionSteps (is : List ℕ) : List Attempt := is.map fun i => .resource (.connection i)

@[simp] theorem acquisitions_helperSteps (is : List ℕ) :
    acquisitions (helperSteps is) = is.map .helper := by
  simp [acquisitions, helperSteps, Attempt.resource?, List.filterMap_map, Function.comp_def]

@[simp] theorem acquisitions_connectionSteps (is : List ℕ) :
    acquisitions (connectionSteps is) = is.map .connection := by
  simp [acquisitions, connectionSteps, Attempt.resource?, List.filterMap_map, Function.comp_def]

theorem succeeded_helperSteps {is : List ℕ} (h : ∀ i ∈ is, env.acquire (.helper i) = .ok ()) :
    ∀ b ∈ helperSteps is, attempt env b = .ok () := by
  intro b hb
  obtain ⟨i, hi, rfl⟩ := List.mem_map.mp hb
  exact h i hi

theorem succeeded_connectionSteps {is : List ℕ}
    (h : ∀ i ∈ is, env.acquire (.connection i) = .ok ()) :
    ∀ b ∈ connectionSteps is, attempt env b = .ok () := by
  intro b hb
  obtain ⟨i, hi, rfl⟩ := List.mem_map.mp hb
  exact h i hi

theorem broken_helper (h : Stopped env .helper (List.range (n + 1)) done (some f)) :
    Broken env n (helperSteps done) f := by
  obtain ⟨i, rest, he, hdone, hf⟩ := h.of_some
  have hsplit : attempts n = helperSteps done ++ .resource (.helper i) :: (helperSteps rest ++
      .offload :: .resource .database :: connectionSteps (List.range' 1 n)) := by
    rw [attempts, he, List.map_append, List.map_cons, List.append_assoc, List.cons_append]
    rfl
  exact ⟨⟨.resource (.helper i), _, hsplit, hf⟩, succeeded_helperSteps hdone⟩

theorem broken_start
    (hhelpers : ∀ i ∈ List.range (n + 1), env.acquire (.helper i) = .ok ())
    (h : env.offload = .error f ∨ env.offload = .ok () ∧ env.acquire .database = .error f) :
    ∃ before, acquisitions before = (List.range (n + 1)).map .helper ∧ Broken env n before f := by
  rcases h with hf | ⟨hoffload, hf⟩
  · exact ⟨helperSteps (List.range (n + 1)), acquisitions_helperSteps _, ⟨.offload, _, rfl, hf⟩,
      succeeded_helperSteps hhelpers⟩
  · refine ⟨helperSteps (List.range (n + 1)) ++ [.offload], ?_,
      ⟨.resource .database, connectionSteps (List.range' 1 n), ?_, hf⟩,
      List.forall_mem_append.mpr ⟨succeeded_helperSteps hhelpers, ?_⟩⟩
    · rw [acquisitions, List.filterMap_append]
      exact (List.append_nil _).trans (acquisitions_helperSteps _)
    · rw [attempts, List.append_assoc]
      rfl
    · exact List.forall_mem_singleton.mpr hoffload

theorem broken_connection
    (hhelpers : ∀ i ∈ List.range (n + 1), env.acquire (.helper i) = .ok ())
    (hoffload : env.offload = .ok ()) (hdatabase : env.acquire .database = .ok ())
    (h : Stopped env .connection (List.range' 1 n) done (some f)) :
    ∃ before, acquisitions before = (List.range (n + 1)).map Resource.helper ++
      .database :: done.map .connection ∧ Broken env n before f := by
  obtain ⟨i, rest, he, hdone, hf⟩ := h.of_some
  refine ⟨helperSteps (List.range (n + 1)) ++
    .offload :: .resource .database :: connectionSteps done, ?_,
    ⟨.resource (.connection i), connectionSteps rest, ?_, hf⟩,
    List.forall_mem_append.mpr ⟨succeeded_helperSteps hhelpers, List.forall_mem_cons.mpr
      ⟨hoffload, List.forall_mem_cons.mpr ⟨hdatabase, succeeded_connectionSteps hdone⟩⟩⟩⟩
  · have hconnections := acquisitions_connectionSteps done
    have hhelpers := acquisitions_helperSteps (List.range (n + 1))
    rw [acquisitions] at hconnections hhelpers ⊢
    rw [List.filterMap_append, hhelpers, List.filterMap_cons, List.filterMap_cons, hconnections]
    rfl
  · rw [attempts, he, List.map_append, List.map_cons, List.append_assoc, List.cons_append,
      List.cons_append]
    rfl

end Before

/-- **What a creation ends in.** A pool stands for all resources; a failure is that of the first
step that fails, with those of the releases, and nothing is left that has been acquired. -/
structure AllOrNothing (env : Surroundings E X) (n : ℕ)
    (outcome : Except (Failure E X) Created × State) : Prop where
  pool : ∀ c, outcome.1 = .ok c → (∀ a ∈ attempts n, attempt env a = .ok ()) ∧
    c = ⟨0, List.range (n + 1), List.range' 1 n⟩ ∧
    outcome.2.log = (acquisitions (attempts n)).map .acquired
  failure : ∀ q, outcome.1 = .error q → ∃ before f, Broken env n before f ∧
    Disposed outcome.2.log ∧ (∀ r, .acquired r ∈ outcome.2.log ↔ r ∈ acquisitions before) ∧
    Contains f q ∧ ∀ r ∈ acquisitions before, ∀ g, env.release r = .error g → Contains g q

theorem mem_acquired_teardown {rs released : List Resource} {r : Resource} :
    .acquired r ∈ rs.map Event.acquired ++ released.map Event.released ↔ r ∈ rs := by
  simp

/-- The failure of a step, after a teardown. -/
theorem of_failure {before : List Attempt} {f q : Failure E X} {s : State}
    {connections others : List Resource} (hbroken : Broken env n before f)
    (hlog : s.log = (acquisitions before).map .acquired ++ (connections ++ others).map .released)
    (hperm : (connections ++ others).Perm (acquisitions before))
    (hdatabase : .database ∉ connections) (hothers : ∀ c, .connection c ∉ others)
    (hf : Contains f q)
    (hreleases : ∀ r ∈ connections ++ others, ∀ g, env.release r = .error g → Contains g q) :
    AllOrNothing env n (.error q, s) where
  pool c h := by cases h
  failure q' h := by
    cases h
    refine ⟨before, f, hbroken, ?_, fun r => ?_, hf, fun r hr => hreleases r (hperm.mem_iff.mpr hr)⟩
    · rw [hlog]
      exact Disposed.of_teardown hperm hbroken.nodup hdatabase hothers
    · rw [hlog]
      exact mem_acquired_teardown

theorem of_pool (hhelpers : ∀ i ∈ List.range (n + 1), env.acquire (.helper i) = .ok ())
    (hoffload : env.offload = .ok ()) (hdatabase : env.acquire .database = .ok ())
    (hconnections : ∀ i ∈ List.range' 1 n, env.acquire (.connection i) = .ok ()) {s : State}
    (hlog : s.log = (acquisitions (attempts n)).map .acquired) :
    AllOrNothing env n (.ok ⟨0, 0 :: List.range' 1 n, List.range' 1 n⟩, s) where
  pool c h := by
    cases h
    exact ⟨List.forall_mem_append.mpr ⟨succeeded_helperSteps hhelpers, List.forall_mem_cons.mpr
      ⟨hoffload, List.forall_mem_cons.mpr ⟨hdatabase, succeeded_connectionSteps hconnections⟩⟩⟩,
      by rw [range_succ_eq_cons], hlog⟩
  failure q h := by cases h

/-- **The creation of a pool is all or nothing.** -/
theorem create_allOrNothing (env : Surroundings E X) (n : ℕ) :
    AllOrNothing env n (create env n start) := by
  rw [create]
  rcases reserve_cases env n with ⟨hhelpers, hreserve⟩ | ⟨done, f, q, hstopped, hreserve, hfq, hr⟩
  · rw [hreserve]
    dsimp only
    rcases initializePool_cases env (List.range' 1 n)
        ((List.range (n + 1)).map fun i => .acquired (.helper i)) (List.range (n + 1)).reverse with
      ⟨hoffload, hdatabase, hconnections, hrun⟩ | ⟨f, hfailed, hrun⟩ |
      ⟨hoffload, hdatabase, done, f, p, hstopped, hrun, hfp, hcs, hdb⟩
    · rw [hrun]
      refine of_pool hhelpers hoffload hdatabase hconnections ?_
      rw [acquisitions_attempts, List.map_append, List.map_map]
      rfl
    · obtain ⟨before, hbefore, hbroken⟩ := broken_start hhelpers hfailed
      obtain ⟨q, hq, hfq, hreleases⟩ := @combine_releaseHelpers E X Created env f
        (0 :: List.range' 1 n)
        ⟨(List.range (n + 1)).map fun i => .acquired (.helper i), (List.range (n + 1)).reverse, []⟩
      rw [hrun]
      dsimp only
      rw [hq, releaseHelpers, releaseEach_log, ← range_succ_eq_cons]
      refine @of_failure E X env n before f q _ [] ((List.range (n + 1)).map .helper) hbroken ?_ ?_
        List.not_mem_nil ?_ hfq ?_
      · rw [hbefore, List.nil_append, List.map_map, List.map_map]
        rfl
      · rw [hbefore, List.nil_append]
      · simp
      · intro r hr
        obtain ⟨i, hi, rfl⟩ := List.mem_map.mp hr
        exact hreleases i (range_succ_eq_cons ▸ hi)
    · obtain ⟨before, hbefore, hbroken⟩ := broken_connection hhelpers hoffload hdatabase hstopped
      obtain ⟨q, hq, hpq, hreleases⟩ := @combine_releaseHelpers E X Created env p
        (0 :: List.range' 1 n) (initializePool env (List.range' 1 n)
          ⟨(List.range (n + 1)).map fun i => .acquired (.helper i), (List.range (n + 1)).reverse,
            []⟩).2
      rw [hrun] at hq ⊢
      dsimp only at hq ⊢
      rw [hq, releaseHelpers, releaseEach_log, ← range_succ_eq_cons]
      refine @of_failure E X env n before f q _ (done.map .connection)
        (.database :: (List.range (n + 1)).map .helper) hbroken ?_ ?_ ?_ ?_ (hfp.trans hpq) ?_
      · rw [hbefore]
        simp
        rfl
      · rw [hbefore]
        exact List.perm_append_comm.trans List.perm_middle.symm
      · simp
      · simp
      · intro r hr
        rcases List.mem_append.mp hr with hr | hr
        · obtain ⟨i, hi, rfl⟩ := List.mem_map.mp hr
          exact fun g hg => (hcs i hi g hg).trans hpq
        rcases List.mem_cons.mp hr with rfl | hr
        · exact fun g hg => (hdb g hg).trans hpq
        · obtain ⟨i, hi, rfl⟩ := List.mem_map.mp hr
          exact hreleases i (range_succ_eq_cons ▸ hi)
  · rw [hreserve]
    refine @of_failure E X env n (helperSteps done) f q _ [] (done.map .helper)
      (broken_helper hstopped) ?_ ?_ List.not_mem_nil ?_ hfq ?_
    · rw [acquisitions_helperSteps]
      rfl
    · rw [acquisitions_helperSteps]
      rfl
    · simp
    · intro r hmem
      obtain ⟨i, hi, rfl⟩ := List.mem_map.mp hmem
      exact hr i hi

end Creation

end DuckdbMl.Pool.Async
