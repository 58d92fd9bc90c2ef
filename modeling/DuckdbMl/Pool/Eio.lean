import DuckdbMl.Failure.Basic
import DuckdbMl.Pool.Basic
import DuckdbMl.Transition.System

/-!
# Creating a pool for Eio

The creator opens a database and connections, and checks for cancellation before it registers a
drain fiber on the switch, and after. The fiber is woken by the creator or by a cancellation of the
switch; from its registration on it alone closes. The machine ends where the pool is published.

## Main definitions

* `Failure`, `Report`, `deliver`: collected failures, and how they are delivered
* `Creator`, `Daemon`, `State`: the two parties
* `machine`: their steps, with cancellations at any time

## Main results

* `allOrNothing_of_reachable`: a pool of all resources, or a failure after which none is left
* `length_le_of_run`, `ended_of_reachable`: a creation ends
-/

namespace DuckdbMl.Pool.Eio

open Transition

inductive Phase
  | operation
  | connect
  | closeConnection
  | closeDatabase
  deriving DecidableEq, Repr

/-- An exception; a cancellation carries its reason. -/
inductive Raised (X : Type)
  | cancelled (reason : X)
  | other (x : X)

inductive Cause (X : Type)
  | core (e : DuckdbMl.Failure)
  | raised (x : Raised X)

structure Failure (X : Type) where
  phase : Phase
  cause : Cause X

variable {X : Type}

/-- What the caller of a failed creation sees: the first two are errors, the others exceptions. -/
inductive Report (X : Type)
  | core (e : DuckdbMl.Failure)
  | lifecycleErrors (failures : List (Failure X))
  | raised (x : Raised X)
  | lifecycleFailure (failures : List (Failure X))
  | cancelledWithFailures (reason : X) (failures : List (Failure X))

/-! ### Delivery -/

/-- The outcome of an operation that a cancellation interrupts. -/
def Failure.ordinary : Failure X → Bool
  | ⟨.operation, .core ⟨_, .cancelled⟩⟩ => true
  | ⟨.operation, .core ⟨_, .native _⟩⟩ => true
  | _ => false

def Failure.isRaised : Failure X → Bool
  | ⟨_, .raised _⟩ => true
  | ⟨_, .core _⟩ => false

def propagateCancellation (reason : X) (failures : List (Failure X)) : Report X :=
  if failures.all Failure.ordinary then .raised (.cancelled reason)
  else .cancelledWithFailures reason failures

def deliver : List (Failure X) → Report X
  | [⟨.operation, .core e⟩] => .core e
  | ⟨.operation, .raised (.cancelled reason)⟩ :: cleanup => propagateCancellation reason cleanup
  | [⟨.operation, .raised x⟩] => .raised x
  | failures =>
    if failures.any Failure.isRaised then .lifecycleFailure failures else .lifecycleErrors failures

abbrev cancellation (reason : X) : Failure X := ⟨.operation, .raised (.cancelled reason)⟩

/-- A failure is a part of a report. -/
def Reported (f : Failure X) : Report X → Prop
  | .core e => f = ⟨.operation, .core e⟩
  | .lifecycleErrors failures => f ∈ failures
  | .raised x => f = ⟨.operation, .raised x⟩
  | .lifecycleFailure failures => f ∈ failures
  | .cancelledWithFailures reason failures => f = cancellation reason ∨ f ∈ failures

/-- **Every failure is reported**; only the interrupted operation may be left out beside its
cancellation. -/
theorem reported_deliver {failures : List (Failure X)} {f : Failure X} (hf : f ∈ failures) :
    Reported f (deliver failures) ∨
      f.ordinary = true ∧ ∃ reason, cancellation reason ∈ failures ∧
        deliver failures = .raised (.cancelled reason) := by
  unfold deliver
  split
  · exact .inl (List.mem_singleton.mp hf)
  · rename_i reason cleanup
    rw [propagateCancellation]
    split
    · rename_i hall
      rcases List.mem_cons.mp hf with rfl | hmem
      · exact .inl rfl
      · exact .inr ⟨List.all_eq_true.mp hall f hmem, reason, List.mem_cons_self, rfl⟩
    · exact .inl (List.mem_cons.mp hf)
  · exact .inl (List.mem_singleton.mp hf)
  · split
    · exact .inl hf
    · exact .inl hf

/-! ### The two parties -/

inductive Party
  | creator
  | daemon
  deriving DecidableEq, Repr

/-- How each acquisition and each release ends, and the reasons of the two cancellations. -/
structure Surroundings (X : Type) where
  acquire : Resource → Except (Cause X) Unit
  release : Resource → Except (Cause X) Unit
  callerReason : X
  switchReason : X

/-- `closing` has the failures so far and the connections that are still open, and tells whether
the creator checks for a cancellation once more. -/
inductive Creator (X : Type)
  | entered
  | opening
  | connecting (remaining : ℕ)
  | closing (recheck : Bool) (failures : List (Failure X)) (slots : List ℕ)
  | rechecking
  | joining (failures : List (Failure X))
  | failed (report : Report X)
  | published

inductive Daemon (X : Type)
  | absent
  | waiting
  | closing (cleanup : List (Failure X)) (slots : List ℕ)
  | stopped (result : List (Failure X))

inductive Lifecycle
  | accepting
  | stopping
  | stopped
  deriving DecidableEq, Repr

/-- `acquired` are the connections of the creator, the last one first, and `idle` those of the
pool; `stopping` is the promise that wakes the daemon. `tried` are the acquisitions that the creator
has called, also those that failed. -/
structure State (X : Type) where
  creator : Creator X
  daemon : Daemon X
  callerCancelled : Bool
  switchCancelled : Bool
  acquired : List ℕ
  idle : List ℕ
  lifecycle : Lifecycle
  failures : List (Failure X)
  stopping : Bool
  tried : List Resource
  log : List (Party × Event)

def State.write (s : State X) (p : Party) (e : Event) : State X := { s with log := s.log ++ [(p, e)] }

def State.attempt (s : State X) (r : Resource) : State X := { s with tried := s.tried ++ [r] }

def errors (phase : Phase) : Except (Cause X) Unit → List (Failure X)
  | .ok () => []
  | .error c => [⟨phase, c⟩]

def startShutdown (failures : List (Failure X)) (s : State X) : State X :=
  match s.lifecycle with
  | .accepting =>
    { s with failures := s.failures ++ failures, lifecycle := .stopping, stopping := true }
  | .stopping | .stopped => { s with failures := s.failures ++ failures }

section Steps

variable (env : Surroundings X)

/-- The reason of a cancellation, that of the caller first. -/
def checkContext (s : State X) : Option X :=
  if s.callerCancelled then some env.callerReason
  else if s.switchCancelled then some env.switchReason
  else none

/-- A failure is delivered behind a cancellation that has come meanwhile. -/
def failed (failures : List (Failure X)) (s : State X) : Report X :=
  match checkContext env s with
  | none => deliver failures
  | some reason => deliver (cancellation reason :: failures)

/-- Between the check and the registration of the drain fiber no other fiber runs. -/
def register (s : State X) : State X :=
  match checkContext env s with
  | some reason => { s with creator := .closing false [cancellation reason] s.acquired }
  | none =>
    { s with
      creator := .rechecking, daemon := .waiting, idle := s.acquired.reverse,
      lifecycle := .accepting, failures := [], stopping := false }

def creatorStep (connections : ℕ) (s : State X) : Option (State X) :=
  match s.creator with
  | .entered =>
    match checkContext env s with
    | some reason => some { s with creator := .failed (.raised (.cancelled reason)) }
    | none => some { s with creator := .opening }
  | .opening =>
    let s := s.attempt .database
    match env.acquire .database with
    | .error c => some { s with creator := .failed (failed env [⟨.operation, c⟩] s) }
    | .ok () =>
      some { s.write .creator (.acquired .database) with creator := .connecting connections }
  | .connecting 0 => some (register env s)
  | .connecting (n + 1) =>
    let slot := s.acquired.length
    let s := s.attempt (.connection slot)
    match env.acquire (.connection slot) with
    | .error c => some { s with creator := .closing true [⟨.connect, c⟩] s.acquired }
    | .ok () =>
      some { s.write .creator (.acquired (.connection slot)) with
        creator := .connecting n, acquired := slot :: s.acquired }
  | .closing recheck failures (slot :: slots) =>
    let failures := failures ++ errors .closeConnection (env.release (.connection slot))
    some { s.write .creator (.released (.connection slot)) with
      creator := .closing recheck failures slots }
  | .closing recheck failures [] =>
    let failures := failures ++ errors .closeDatabase (env.release .database)
    let report := if recheck then failed env failures s else deliver failures
    some { s.write .creator (.released .database) with creator := .failed report }
  | .rechecking =>
    match checkContext env s with
    | none => some { s with creator := .published }
    | some reason =>
      some { startShutdown [] s with creator := .joining [cancellation reason] }
  | .joining failures =>
    match s.daemon with
    | .stopped result => some { s with creator := .failed (deliver (failures ++ result)) }
    | _ => none
  | .failed _ | .published => none

/-- The drain: no request has been submitted to a pool that is not published. -/
def daemonStep (s : State X) : Option (State X) :=
  match s.daemon with
  | .absent => none
  | .waiting =>
    if s.stopping || s.switchCancelled then
      some { startShutdown [] s with daemon := .closing [] s.idle, idle := [] }
    else none
  | .closing cleanup (slot :: slots) =>
    let cleanup := cleanup ++ errors .closeConnection (env.release (.connection slot))
    some { s.write .daemon (.released (.connection slot)) with daemon := .closing cleanup slots }
  | .closing cleanup [] =>
    let failures := s.failures ++ (cleanup ++ errors .closeDatabase (env.release .database))
    some { s.write .daemon (.released .database) with
      daemon := .stopped failures, failures := failures, lifecycle := .stopped }
  | .stopped _ => none

inductive Action
  | cancelCaller
  | cancelSwitch
  | creator
  | daemon
  deriving DecidableEq, Repr

def step (connections : ℕ) (s : State X) : Action → Option (State X)
  | .cancelCaller => if s.callerCancelled then none else some { s with callerCancelled := true }
  | .cancelSwitch => if s.switchCancelled then none else some { s with switchCancelled := true }
  | .creator => creatorStep env connections s
  | .daemon => daemonStep env s

end Steps

/-- The pool is not published yet. -/
def State.isPublished (s : State X) : Bool :=
  match s.creator with
  | .published => true
  | _ => false

def start : State X :=
  ⟨.entered, .absent, false, false, [], [], .accepting, [], false, [], []⟩

/-- The creation of a pool, up to its publication. -/
def machine (env : Surroundings X) (connections : ℕ) : System (State X) Action where
  start s := s = start
  step s a := if s.isPublished then none else step env connections s a

/-! ### Invariants -/

section Invariants

variable (env : Surroundings X) (n : ℕ)

/-- The log of an open database with the first `k` connections. -/
def opened (k : ℕ) : List (Party × Event) :=
  (.creator, .acquired .database) ::
    (List.range k).map fun i => (.creator, .acquired (.connection i))

def closeFailures (slots : List ℕ) : List (Failure X) :=
  slots.flatMap fun i => errors .closeConnection (env.release (.connection i))

/-- A party has closed all `slots` but those `todo`. -/
def Closing (p : Party) (slots : List ℕ) (before failures : List (Failure X)) (todo : List ℕ)
    (log : List (Party × Event)) : Prop :=
  ∃ closed, slots = closed ++ todo ∧
    log = opened slots.length ++ closed.map (fun i => (p, .released (.connection i))) ∧
    failures = before ++ closeFailures env closed

/-- A party has closed all `slots` and the database. -/
structure Closed (p : Party) (slots : List ℕ) (before failures : List (Failure X))
    (log : List (Party × Event)) : Prop where
  log : log = opened slots.length ++ slots.map (fun i => (p, .released (.connection i))) ++
    [(p, .released .database)]
  failures : failures = before ++ closeFailures env slots ++
    errors .closeDatabase (env.release .database)

structure Acquired (k : ℕ) (s : State X) : Prop where
  slots : s.acquired = (List.range k).reverse
  tried : ∀ r ∈ s.tried, env.acquire r = .ok ()
  database : env.acquire .database = .ok ()
  connections : ∀ i < k, env.acquire (.connection i) = .ok ()

inductive Cancelled (s : State X) : X → Prop
  | caller : s.callerCancelled = true → Cancelled s env.callerReason
  | switch : s.switchCancelled = true → Cancelled s env.switchReason

/-- The phase in which a resource is acquired. -/
def openPhase : Resource → Phase
  | .connection _ => .connect
  | _ => .operation

/-- The failure that stopped a creation: that of the last acquisition, or a cancellation where all
of them have succeeded. -/
inductive Original (s : State X) : Failure X → Prop
  | acquisition {rs : List Resource} {r : Resource} {c : Cause X} : s.tried = rs ++ [r] →
    (∀ q ∈ rs, env.acquire q = .ok ()) → env.acquire r = .error c → Original s ⟨openPhase r, c⟩
  | cancelled {reason : X} : (∀ r ∈ s.tried, env.acquire r = .ok ()) → Cancelled env s reason →
    Original s (cancellation reason)

/-- The party that closes. -/
def State.disposer (s : State X) : Party :=
  match s.daemon with
  | .absent => .creator
  | _ => .daemon

/-- The phase in which a resource is closed. -/
def closePhase : Resource → Phase
  | .connection _ => .closeConnection
  | _ => .closeDatabase

/-- **What a failed creation ends in**: everything acquired has been closed, by one party, and the
report has the failure that stopped it, unless this is an interrupted operation beside its
cancellation, and those of all closings. -/
structure Undone (s : State X) (report : Report X) : Prop where
  disposed : Disposed (s.log.map Prod.snd)
  disposer : ∀ p r, (p, .released r) ∈ s.log → p = s.disposer
  original : ∃ f, Original env s f ∧ (Reported f report ∨
    f.ordinary = true ∧ ∃ reason, Cancelled env s reason ∧ Reported (cancellation reason) report)
  closings : ∀ r c, .released r ∈ s.log.map Prod.snd → env.release r = .error c →
    Reported ⟨closePhase r, c⟩ report

def DaemonInv (s : State X) : Daemon X → Prop
  | .absent => False
  | .waiting => s.log = opened n ∧ s.idle = List.range n ∧ s.failures = []
  | .closing cleanup slots =>
    Closing env .daemon (List.range n) [] cleanup slots s.log ∧ s.failures = []
  | .stopped result => Closed env .daemon (List.range n) [] result s.log

def CreatorInv (s : State X) : Creator X → Prop
  | .entered | .opening => s.daemon = .absent ∧ s.log = [] ∧ s.acquired = [] ∧ s.tried = []
  | .connecting m =>
    s.daemon = .absent ∧ ∃ k, k + m = n ∧ Acquired env k s ∧ s.log = opened k
  | .closing _ failures slots =>
    s.daemon = .absent ∧ ∃ k f, s.acquired = (List.range k).reverse ∧ Original env s f ∧
      Closing env .creator s.acquired [f] failures slots s.log
  | .rechecking =>
    Acquired env n s ∧ DaemonInv env n s s.daemon ∧
      (s.switchCancelled = true ∨ s.daemon = .waiting ∧ s.stopping = false) ∧
      (s.daemon = .waiting → s.lifecycle = .accepting)
  | .joining failures =>
    Acquired env n s ∧ DaemonInv env n s s.daemon ∧ (s.daemon = .waiting → s.stopping = true) ∧
      ∃ reason, Cancelled env s reason ∧ failures = [cancellation reason]
  | .failed report =>
    (s.daemon = .absent ∨ ∃ result, s.daemon = .stopped result) ∧ Undone env s report
  | .published => Acquired env n s ∧ s.log = opened n

end Invariants

/-! ### Closing -/

section Closing

variable {env : Surroundings X} {n : ℕ} {s t : State X} {p : Party} {slots todo : List ℕ}
  {before failures : List (Failure X)} {log : List (Party × Event)}

theorem Closing.begin (env : Surroundings X) (p : Party) (slots : List ℕ)
    (before : List (Failure X)) : Closing env p slots before before slots (opened slots.length) :=
  ⟨[], rfl, by rw [List.map_nil, List.append_nil], by rw [closeFailures, List.flatMap_nil,
    List.append_nil]⟩

theorem Closing.next {i : ℕ} (h : Closing env p slots before failures (i :: todo) log) :
    Closing env p slots before
      (failures ++ errors .closeConnection (env.release (.connection i))) todo
      (log ++ [(p, .released (.connection i))]) := by
  obtain ⟨closed, hslots, hlog, hfailures⟩ := h
  refine ⟨closed ++ [i], by rw [hslots, List.append_assoc]; rfl, ?_, ?_⟩
  · rw [hlog, List.map_append, List.append_assoc]
    rfl
  · rw [hfailures, closeFailures, closeFailures, List.flatMap_append, List.flatMap_singleton,
      List.append_assoc]

theorem Closing.finish (h : Closing env p slots before failures [] log) :
    Closed env p slots before (failures ++ errors .closeDatabase (env.release .database))
      (log ++ [(p, .released .database)]) := by
  obtain ⟨closed, hslots, hlog, hfailures⟩ := h
  rw [List.append_nil] at hslots
  exact ⟨by rw [hlog, hslots], by rw [hfailures, hslots]⟩

theorem mem_opened {k : ℕ} {e : Party × Event} (h : e ∈ opened k) :
    e.1 = .creator ∧ ∃ r, e.2 = .acquired r := by
  rcases List.mem_cons.mp h with rfl | h
  · exact ⟨rfl, _, rfl⟩
  · obtain ⟨i, -, rfl⟩ := List.mem_map.mp h
    exact ⟨rfl, _, rfl⟩

/-- What a party has closed, and who it was. -/
theorem Closed.mem_released (h : Closed env p slots before failures log) {q : Party}
    {r : Resource} (hr : (q, .released r) ∈ log) :
    q = p ∧ (r = .database ∨ ∃ i ∈ slots, r = .connection i) := by
  rw [h.log] at hr
  rcases List.mem_append.mp hr with hr | hr
  · rcases List.mem_append.mp hr with hr | hr
    · obtain ⟨-, r', he⟩ := mem_opened hr
      cases he
    · obtain ⟨i, hi, he⟩ := List.mem_map.mp hr
      cases he
      exact ⟨rfl, .inr ⟨i, hi, rfl⟩⟩
  · cases List.mem_singleton.mp hr
    exact ⟨rfl, .inl rfl⟩

theorem Closed.disposed (h : Closed env p slots before failures log)
    (hperm : slots.Perm (List.range slots.length)) : Disposed (log.map Prod.snd) := by
  have hlog : log.map Prod.snd =
      (.database :: (List.range slots.length).map Resource.connection).map .acquired ++
        (slots.map Resource.connection ++ [Resource.database]).map .released := by
    rw [h.log, opened]
    simp
    rfl
  rw [hlog]
  refine Disposed.of_teardown ?_ (List.nodup_cons.mpr ⟨by simp, ?_⟩) (by simp) (by simp)
  · exact List.perm_append_comm.trans ((hperm.map Resource.connection).cons Resource.database)
  · exact List.nodup_range.map fun _ _ h => Resource.connection.inj h

theorem Closed.mem_failures (h : Closed env p slots before failures log) {q : Party}
    {r : Resource} {c : Cause X} (hr : (q, .released r) ∈ log) (hc : env.release r = .error c) :
    ⟨closePhase r, c⟩ ∈ failures := by
  rw [h.failures]
  rcases (h.mem_released hr).2 with rfl | ⟨i, hi, rfl⟩
  · rw [hc]
    exact List.mem_append_right _ (List.mem_singleton.mpr rfl)
  · refine List.mem_append_left _ (List.mem_append_right _ (List.mem_flatMap.mpr ⟨i, hi, ?_⟩))
    rw [hc]
    exact List.mem_singleton.mpr rfl

theorem mem_errors {phase : Phase} {o : Except (Cause X) Unit} {f : Failure X}
    (h : f ∈ errors phase o) : f.phase = phase := by
  cases o with
  | error c => rw [List.mem_singleton.mp h]
  | ok u => cases h

theorem Closed.mem_before (h : Closed env p slots before failures log) {f : Failure X}
    (hf : f ∈ failures) (hphase : f.phase = .operation) : f ∈ before := by
  rw [h.failures] at hf
  rcases List.mem_append.mp hf with hf | hf
  · rcases List.mem_append.mp hf with hf | hf
    · exact hf
    · obtain ⟨i, -, hi⟩ := List.mem_flatMap.mp hf
      rw [mem_errors hi] at hphase
      cases hphase
  · rw [mem_errors hf] at hphase
    cases hphase

theorem Failure.phase_of_ordinary {f : Failure X} (h : f.ordinary = true) :
    f.phase = .operation := by
  obtain ⟨phase, c⟩ := f
  cases phase with
  | operation => rfl
  | connect => cases h
  | closeConnection => cases h
  | closeDatabase => cases h

/-- A closing whose failures are delivered with the original failure. -/
theorem Closed.undone {fs : List (Failure X)} {f : Failure X}
    (h : Closed env p slots before failures s.log)
    (hperm : slots.Perm (List.range slots.length)) (hp : p = s.disposer)
    (hf : Original env s f) (hmem : f ∈ fs) (hfailures : ∀ g ∈ failures, g ∈ fs)
    (hcancelled : ∀ reason, cancellation reason ∈ fs → cancellation reason = f ∨
      Cancelled env s reason) : Undone env s (deliver fs) where
  disposed := h.disposed hperm
  disposer q r hr := (h.mem_released hr).1.trans hp
  original := by
    refine ⟨f, hf, ?_⟩
    -- the original failure is in the report, unless a cancellation is delivered in its place
    rcases reported_deliver hmem with hreported | ⟨hordinary, reason, hreason, hdeliver⟩
    · exact .inl hreported
    · refine .inr ⟨hordinary, reason, ?_, by rw [hdeliver]; rfl⟩
      rcases hcancelled reason hreason with rfl | hc
      · cases hordinary
      · exact hc
  closings r c hr hc := by
    obtain ⟨⟨q, e⟩, he, rfl⟩ := List.mem_map.mp hr
    -- a failure of a closing is never ordinary, and so it is reported
    rcases reported_deliver (hfailures _ (h.mem_failures he hc)) with hreported | ⟨hordinary, -⟩
    · exact hreported
    · have hphase := Failure.phase_of_ordinary hordinary
      cases r <;> cases hphase

end Closing

/-! ### Runs -/

section Runs

variable {env : Surroundings X} {n : ℕ} {s t : State X}

theorem Cancelled.mono {reason : X} (h : Cancelled env s reason)
    (hcaller : s.callerCancelled = true → t.callerCancelled = true)
    (hswitch : s.switchCancelled = true → t.switchCancelled = true) : Cancelled env t reason := by
  cases h with
  | caller h => exact .caller (hcaller h)
  | switch h => exact .switch (hswitch h)

theorem Original.mono {f : Failure X} (h : Original env s f) (htried : t.tried = s.tried)
    (hcaller : s.callerCancelled = true → t.callerCancelled = true)
    (hswitch : s.switchCancelled = true → t.switchCancelled = true) : Original env t f := by
  cases h with
  | acquisition hrs hok h => exact .acquisition (htried.trans hrs) hok h
  | cancelled hok h => exact .cancelled (htried ▸ hok) (h.mono hcaller hswitch)

theorem Undone.mono {report : Report X} (h : Undone env s report) (hlog : t.log = s.log)
    (hdaemon : t.daemon = s.daemon) (htried : t.tried = s.tried)
    (hcaller : s.callerCancelled = true → t.callerCancelled = true)
    (hswitch : s.switchCancelled = true → t.switchCancelled = true) : Undone env t report where
  disposed := hlog ▸ h.disposed
  disposer p r hr := by
    rw [State.disposer, hdaemon]
    exact h.disposer p r (hlog ▸ hr)
  original := by
    obtain ⟨f, hf, hreported⟩ := h.original
    refine ⟨f, hf.mono htried hcaller hswitch, hreported.imp_right ?_⟩
    rintro ⟨hordinary, reason, hreason, hr⟩
    exact ⟨hordinary, reason, hreason.mono hcaller hswitch, hr⟩
  closings r c hr := h.closings r c (hlog ▸ hr)

theorem DaemonInv.of_eq {d : Daemon X} (h : DaemonInv env n s d) (hlog : t.log = s.log)
    (hidle : t.idle = s.idle) (hfailures : t.failures = s.failures) : DaemonInv env n t d := by
  cases d with
  | absent => exact h
  | waiting => exact ⟨hlog.trans h.1, hidle.trans h.2.1, hfailures.trans h.2.2⟩
  | closing cleanup slots =>
    rw [DaemonInv, hlog, hfailures]
    exact h
  | stopped result =>
    rw [DaemonInv, hlog]
    exact h

theorem checkContext_eq_some {reason : X} (h : checkContext env s = some reason) :
    Cancelled env s reason := by
  rw [checkContext] at h
  split at h
  · rename_i hcaller
    cases h
    exact .caller hcaller
  · split at h
    · rename_i hswitch
      cases h
      exact .switch hswitch
    · cases h

theorem checkContext_eq_none (h : checkContext env s = none) : s.switchCancelled = false := by
  rw [checkContext] at h
  split at h
  · cases h
  · split at h
    · cases h
    · exact eq_false_of_ne_true ‹_›

theorem Acquired.of_eq {k : ℕ} (h : Acquired env k s) (hslots : t.acquired = s.acquired)
    (htried : t.tried = s.tried) : Acquired env k t :=
  ⟨hslots.trans h.slots, htried ▸ h.tried, h.database, h.connections⟩

theorem Acquired.length {k : ℕ} (h : Acquired env k s) : s.acquired.length = k := by
  rw [h.slots, List.length_reverse, List.length_range]

theorem perm_range {k : ℕ} (h : s.acquired = (List.range k).reverse) :
    s.acquired.Perm (List.range s.acquired.length) := by
  rw [h, List.length_reverse, List.length_range]
  exact List.reverse_perm _

theorem Undone.of_untouched {f : Failure X} {report : Report X} (hlog : s.log = [])
    (hf : Original env s f)
    (hreported : Reported f report ∨ f.ordinary = true ∧ ∃ reason, Cancelled env s reason ∧
      Reported (cancellation reason) report) : Undone env s report where
  disposed := by
    rw [hlog]
    exact ⟨fun r => ⟨rfl, Nat.zero_le _⟩, fun i r h => by simp at h, fun i j c h => by simp at h⟩
  disposer p r h := by simp [hlog] at h
  original := ⟨f, hf, hreported⟩
  closings r c h := by simp [hlog] at h

/-- The failure of an opening, delivered. -/
theorem undone_failed {c : Cause X} (hlog : s.log = []) (htried : s.tried = [.database])
    (hc : env.acquire .database = .error c) : Undone env s (failed env [⟨.operation, c⟩] s) := by
  refine .of_untouched hlog (@Original.acquisition _ _ _ [] _ _ htried (fun q hq => by cases hq) hc) ?_
  rw [failed]
  split
  -- no cancellation has come
  · rcases reported_deliver (List.mem_singleton.mpr rfl : (⟨.operation, c⟩ : Failure X) ∈ [_]) with
      hreported | ⟨hordinary, reason, hreason, -⟩
    · exact .inl hreported
    · cases List.mem_singleton.mp hreason
      cases hordinary
  -- a cancellation has come as well: it is delivered with the failure
  · rename_i reason hcheck
    rcases reported_deliver (List.mem_cons_of_mem (cancellation reason)
        (List.mem_singleton.mpr rfl : (⟨.operation, c⟩ : Failure X) ∈ [_])) with
      hreported | ⟨hordinary, reason', hreason, hdeliver⟩
    · exact .inl hreported
    · refine .inr ⟨hordinary, reason, checkContext_eq_some hcheck, ?_⟩
      rcases List.mem_cons.mp hreason with he | he
      · cases he
        rw [hdeliver]
        rfl
      · cases List.mem_singleton.mp he
        cases hordinary

/-- A shutdown without a failure changes nothing but the promise. -/
theorem startShutdown_nil (s : State X) : ∃ lifecycle stopping,
    startShutdown [] s = { s with lifecycle := lifecycle, stopping := stopping } ∧
      (s.lifecycle = .accepting ∨ s.stopping = true → stopping = true) := by
  rw [startShutdown]
  split
  · exact ⟨.stopping, true, by rw [List.append_nil], fun _ => rfl⟩
  · rename_i h
    exact ⟨s.lifecycle, s.stopping, by rw [List.append_nil], fun hs => hs.resolve_left (by simp [h])⟩
  · rename_i h
    exact ⟨s.lifecycle, s.stopping, by rw [List.append_nil], fun hs => hs.resolve_left (by simp [h])⟩

/-- After the last check the daemon takes over. -/
theorem creatorInv_register (h : CreatorInv env n s (.connecting 0)) :
    CreatorInv env n (register env s) (register env s).creator := by
  obtain ⟨hdaemon, k, rfl, hacquired, hlog⟩ := h
  rw [register]
  split
  · rename_i reason hcheck
    refine ⟨hdaemon, k, _, hacquired.slots,
      .cancelled hacquired.tried (checkContext_eq_some hcheck), ?_⟩
    dsimp only
    rw [hlog, ← hacquired.length]
    exact .begin env _ _ _
  · rename_i hcheck
    refine ⟨hacquired.of_eq rfl rfl, ⟨hlog, ?_, rfl⟩,
      .inr ⟨rfl, rfl⟩, fun _ => rfl⟩
    rw [hacquired.slots, List.reverse_reverse]
    rfl

theorem opened_succ (k : ℕ) :
    opened (k + 1) = opened k ++ [(.creator, .acquired (.connection k))] := by
  rw [opened, List.range_succ, List.map_append]
  rfl

/-- The creator has closed everything. -/
theorem undone_creator {k : ℕ} {f : Failure X} {failures : List (Failure X)} {recheck : Bool}
    (hdaemon : s.daemon = .absent) (hslots : s.acquired = (List.range k).reverse)
    (hf : Original env s f)
    (h : Closed env .creator s.acquired [f] failures s.log) :
    Undone env s (if recheck then failed env failures s else deliver failures) := by
  have hmem : f ∈ failures := by
    rw [h.failures]
    exact List.mem_append_left _ (List.mem_append_left _ (List.mem_singleton.mpr rfl))
  have hcreator : Party.creator = s.disposer := by rw [State.disposer, hdaemon]
  -- the only cancellation among the failures is the original one
  have honly : ∀ reason, cancellation reason ∈ failures → cancellation reason = f :=
    fun reason hreason => List.mem_singleton.mp (h.mem_before hreason rfl)
  have hdeliver : Undone env s (deliver failures) :=
    h.undone (perm_range hslots) hcreator hf hmem (fun g hg => hg)
      fun reason hr => .inl (honly reason hr)
  -- the creator checks once more for a cancellation when its acquisition has failed
  cases recheck with
  | false => exact hdeliver
  | true =>
    rw [if_pos rfl, failed]
    split
    · exact hdeliver
    · rename_i reason hcheck
      refine h.undone (perm_range hslots) hcreator hf (List.mem_cons_of_mem _ hmem)
        (fun g hg => List.mem_cons_of_mem _ hg) fun reason' hr => ?_
      rcases List.mem_cons.mp hr with he | hr
      · cases he
        exact .inr (checkContext_eq_some hcheck)
      · exact .inl (honly reason' hr)

/-- The daemon has closed everything. -/
theorem undone_daemon {reason : X} {result : List (Failure X)}
    (hdaemon : s.daemon = .stopped result) (htried : ∀ r ∈ s.tried, env.acquire r = .ok ())
    (hreason : Cancelled env s reason)
    (h : Closed env .daemon (List.range n) [] result s.log) :
    Undone env s (deliver ([cancellation reason] ++ result)) := by
  have hlength : (List.range n).Perm (List.range (List.range n).length) := by
    rw [List.length_range]
  refine h.undone hlength (by rw [State.disposer, hdaemon])
    (.cancelled htried hreason) List.mem_cons_self (fun g hg => List.mem_cons_of_mem _ hg)
    fun reason' hr => ?_
  rcases List.mem_cons.mp hr with he | hr
  · exact .inl he
  · cases h.mem_before hr rfl

/-- The creator keeps the invariant. -/
theorem creatorInv_creatorStep (h : CreatorInv env n s s.creator)
    (hstep : creatorStep env n s = some t) : CreatorInv env n t t.creator := by
  rw [creatorStep] at hstep
  split at hstep
  -- entered: the context is checked before anything is acquired
  · rename_i hcreator
    rw [hcreator] at h
    split at hstep
    · rename_i reason hcheck
      cases hstep
      refine ⟨.inl h.1, .of_untouched h.2.1 (.cancelled ?_ ?_) (.inl rfl)⟩
      · rw [h.2.2.2]
        exact fun r hr => by cases hr
      · exact checkContext_eq_some hcheck
    · cases hstep
      exact h
  -- the database is opened; without it there is nothing to undo
  · rename_i hcreator
    rw [hcreator] at h
    obtain ⟨hdaemon, hlog, hacquired, htried⟩ := h
    have htried : (s.attempt .database).tried = [.database] := by rw [State.attempt, htried]; rfl
    dsimp only at hstep
    split at hstep
    · rename_i c hc
      cases hstep
      exact ⟨.inl hdaemon, (undone_failed (s := s.attempt .database) hlog htried hc).mono rfl rfl rfl
        id id⟩
    · rename_i hc
      cases hstep
      refine ⟨hdaemon, 0, Nat.zero_add n, ⟨hacquired, ?_, hc, fun i hi => absurd hi i.not_lt_zero⟩,
        ?_⟩
      · intro r hr
        obtain rfl := List.mem_singleton.mp (htried ▸ hr : r ∈ [Resource.database])
        exact hc
      · rw [State.write, State.attempt, hlog]
        rfl
  -- the daemon is registered
  · rename_i hcreator
    rw [hcreator] at h
    cases hstep
    exact creatorInv_register h
  -- a slot more is connected, or what there is begins to be closed
  · rename_i m hcreator
    rw [hcreator] at h
    obtain ⟨hdaemon, k, rfl, hacquired, hlog⟩ := h
    dsimp only at hstep
    rw [hacquired.length] at hstep
    split at hstep
    · rename_i c hc
      cases hstep
      refine ⟨hdaemon, k, _, hacquired.slots, .acquisition rfl hacquired.tried hc, ?_⟩
      change Closing env .creator s.acquired _ _ s.acquired s.log
      rw [hlog, ← hacquired.length]
      exact .begin env _ _ _
    · rename_i hc
      cases hstep
      refine ⟨hdaemon, k + 1, by omega, ⟨?_, ?_, hacquired.database, fun i hi => ?_⟩, ?_⟩
      · rw [List.range_succ, List.reverse_append, ← hacquired.slots]
        rfl
      · exact List.forall_mem_append.mpr ⟨hacquired.tried, List.forall_mem_singleton.mpr hc⟩
      · rcases Nat.lt_succ_iff_lt_or_eq.mp hi with hi | rfl
        · exact hacquired.connections i hi
        · exact hc
      · rw [opened_succ, ← hlog]
        rfl
  -- the creator closes what it has opened, slot by slot and then the database
  · rename_i recheck failures slot slots hcreator
    rw [hcreator] at h
    obtain ⟨hdaemon, k, f, hslots, hf, hclosing⟩ := h
    cases hstep
    exact ⟨hdaemon, k, f, hslots, hf.mono rfl id id, hclosing.next⟩
  · rename_i recheck failures hcreator
    rw [hcreator] at h
    obtain ⟨hdaemon, k, f, hslots, hf, hclosing⟩ := h
    cases hstep
    refine ⟨.inl hdaemon, ?_⟩
    exact @undone_creator _ _ _ k f _ recheck hdaemon hslots (hf.mono rfl id id) hclosing.finish
  -- the second check: a cancellation after the daemon was registered starts the shutdown, and
  -- the daemon undoes what the creator has opened
  · rename_i hcreator
    rw [hcreator] at h
    obtain ⟨hacquired, hdaemon, hswitch, hlifecycle⟩ := h
    split at hstep
    · rename_i hcheck
      cases hstep
      refine ⟨hacquired.of_eq rfl rfl, ?_⟩
      rcases hswitch with hswitch | ⟨hwaiting, -⟩
      · rw [checkContext_eq_none hcheck] at hswitch
        cases hswitch
      · rw [hwaiting] at hdaemon
        exact hdaemon.1
    · rename_i reason hcheck
      obtain ⟨lifecycle, stopping, hshutdown, hstopping⟩ := startShutdown_nil s
      rw [hshutdown] at hstep
      cases hstep
      refine ⟨hacquired.of_eq rfl rfl, ?_,
        fun hwaiting => hstopping (.inl (hlifecycle hwaiting)), reason,
        (checkContext_eq_some hcheck).mono id id, rfl⟩
      exact hdaemon.of_eq rfl rfl rfl
  -- the creator waits for the daemon and reports why it was cancelled
  · rename_i failures hcreator
    rw [hcreator] at h
    obtain ⟨hacquired, hdaemon, -, reason, hreason, rfl⟩ := h
    split at hstep
    · rename_i result hstopped
      rw [hstopped] at hdaemon
      cases hstep
      refine ⟨.inr ⟨result, hstopped⟩, ?_⟩
      exact undone_daemon hstopped hacquired.tried (hreason.mono id id) hdaemon
    · cases hstep
  · cases hstep
  · cases hstep

/-- The daemon keeps the invariant. -/
theorem daemonInv_daemonStep (h : DaemonInv env n s s.daemon) (hstep : daemonStep env s = some t) :
    DaemonInv env n t t.daemon ∧ t.creator = s.creator ∧ t.acquired = s.acquired ∧
      t.tried = s.tried ∧ t.callerCancelled = s.callerCancelled ∧
      t.switchCancelled = s.switchCancelled ∧
      t.daemon ≠ .waiting ∧ s.daemon ≠ .absent ∧
      (s.daemon = .waiting → s.stopping = true ∨ s.switchCancelled = true) := by
  rw [daemonStep] at hstep
  split at hstep
  · cases hstep
  -- woken: the daemon takes the slots and begins to close them
  · rename_i hwaiting
    rw [hwaiting] at h
    obtain ⟨hlog, hidle, hfailures⟩ := h
    split at hstep
    · rename_i hwake
      obtain ⟨lifecycle, stopping, hshutdown, -⟩ := startShutdown_nil s
      rw [hshutdown] at hstep
      cases hstep
      refine ⟨⟨?_, hfailures⟩, rfl, rfl, rfl, rfl, rfl, nofun, by rw [hwaiting]; nofun,
        fun _ => Bool.or_eq_true_iff.mp hwake⟩
      dsimp only
      rw [hidle, hlog]
      have hbegin := Closing.begin env .daemon (List.range n) []
      rw [List.length_range] at hbegin
      exact hbegin
    · cases hstep
  -- one slot after the other
  · rename_i cleanup slot slots hclosing
    rw [hclosing] at h
    cases hstep
    exact ⟨⟨h.1.next, h.2⟩, rfl, rfl, rfl, rfl, rfl, nofun, by rw [hclosing]; nofun,
      fun hw => by rw [hclosing] at hw; cases hw⟩
  -- and the database last
  · rename_i cleanup hclosing
    rw [hclosing] at h
    cases hstep
    refine ⟨?_, rfl, rfl, rfl, rfl, rfl, nofun, by rw [hclosing]; nofun,
      fun hw => by rw [hclosing] at hw; cases hw⟩
    dsimp only
    rw [h.2]
    exact h.1.finish
  · cases hstep

/-- A cancellation keeps the invariant. -/
theorem creatorInv_cancel {c : Creator X} (caller switch : Bool) (h : CreatorInv env n s c)
    (hcaller : s.callerCancelled = true → caller = true)
    (hswitch : s.switchCancelled = true → switch = true) :
    CreatorInv env n { s with callerCancelled := caller, switchCancelled := switch } c := by
  -- a cancellation changes no resource: what was seen of it before stays true
  cases c with
  | entered => exact h
  | opening => exact h
  | connecting m =>
    obtain ⟨hdaemon, k, hk, hacquired, hlog⟩ := h
    exact ⟨hdaemon, k, hk, hacquired.of_eq rfl rfl, hlog⟩
  | closing recheck failures slots =>
    obtain ⟨hdaemon, k, f, hslots, hf, hclosing⟩ := h
    exact ⟨hdaemon, k, f, hslots, hf.mono rfl hcaller hswitch, hclosing⟩
  | rechecking =>
    obtain ⟨hacquired, hdaemon, hwoken, hlifecycle⟩ := h
    exact ⟨hacquired.of_eq rfl rfl, hdaemon.of_eq rfl rfl rfl,
      hwoken.imp_left hswitch, hlifecycle⟩
  | joining failures =>
    obtain ⟨hacquired, hdaemon, hstopping, reason, hreason, hfailures⟩ := h
    exact ⟨hacquired.of_eq rfl rfl, hdaemon.of_eq rfl rfl rfl,
      hstopping, reason, hreason.mono hcaller hswitch, hfailures⟩
  | failed report => exact ⟨h.1, h.2.mono rfl rfl rfl hcaller hswitch⟩
  | published => exact ⟨h.1.of_eq rfl rfl, h.2⟩

/-- The daemon keeps the invariant of the creator, before the publication. -/
theorem creatorInv_daemonStep (h : CreatorInv env n s s.creator) (hpublished : ¬ s.isPublished)
    (hstep : daemonStep env s = some t) : CreatorInv env n t t.creator := by
  have habsent : s.daemon ≠ .absent := by
    intro hd
    rw [daemonStep, hd] at hstep
    cases hstep
  have hstopped : ∀ result, s.daemon ≠ .stopped result := by
    intro result hd
    rw [daemonStep, hd] at hstep
    cases hstep
  -- before it is registered the daemon does not run
  cases hcreator : s.creator with
  | entered =>
    rw [hcreator] at h
    exact absurd h.1 habsent
  | opening =>
    rw [hcreator] at h
    exact absurd h.1 habsent
  | connecting m =>
    rw [hcreator] at h
    exact absurd h.1 habsent
  | closing recheck failures slots =>
    rw [hcreator] at h
    exact absurd h.1 habsent
  -- the daemon stops only when it was woken, and then the second check sees why
  | rechecking =>
    rw [hcreator] at h
    obtain ⟨hopen, hdaemon, hwoken, -⟩ := h
    obtain ⟨hinv, hc, hkept, htried, -, hswitch, hawake, -, hwake⟩ := daemonInv_daemonStep hdaemon hstep
    rw [hc, hcreator]
    refine ⟨hopen.of_eq hkept htried, hinv, .inl ?_, fun hw => absurd hw hawake⟩
    rw [hswitch]
    rcases hwoken with hwoken | ⟨hwaiting, hstopping⟩
    · exact hwoken
    · refine (hwake hwaiting).resolve_left ?_
      rw [hstopping]
      exact Bool.false_ne_true
  | joining failures =>
    rw [hcreator] at h
    obtain ⟨hopen, hdaemon, -, reason, hreason, hfailures⟩ := h
    obtain ⟨hinv, hc, hkept, htried, hcaller, hswitch, hawake, -⟩ := daemonInv_daemonStep hdaemon hstep
    rw [hc, hcreator]
    exact ⟨hopen.of_eq hkept htried, hinv, fun hw => absurd hw hawake, reason,
      hreason.mono (fun h => hcaller.trans h) fun h => hswitch.trans h, hfailures⟩
  | failed report =>
    rw [hcreator] at h
    rcases h.1 with hd | ⟨result, hd⟩
    · exact absurd hd habsent
    · exact absurd hd (hstopped result)
  | published =>
    rw [State.isPublished, hcreator] at hpublished
    exact absurd rfl hpublished

theorem isPublished_of_step {a : Action} (h : (machine env n).step s a = some t) :
    ¬ s.isPublished ∧ step env n s a = some t := by
  simp only [machine] at h
  split at h
  · cases h
  · exact ⟨‹_›, h⟩

/-- **The invariant holds in every reachable state.** -/
theorem creatorInv_of_reachable (h : (machine env n).Reachable Guard.free s) :
    CreatorInv env n s s.creator := by
  refine h.induction (I := fun s => CreatorInv env n s s.creator) ?_ ?_
  · rintro _ rfl
    exact ⟨rfl, rfl, rfl, rfl⟩
  · intro s a t hinv _ hstep
    obtain ⟨hpublished, hstep⟩ := isPublished_of_step hstep
    -- each party keeps its part, and a cancellation is seen by both
    cases a with
    | cancelCaller =>
      rw [step] at hstep
      split at hstep
      · cases hstep
      · cases hstep
        exact creatorInv_cancel true s.switchCancelled hinv (fun _ => rfl) id
    | cancelSwitch =>
      rw [step] at hstep
      split at hstep
      · cases hstep
      · cases hstep
        exact creatorInv_cancel s.callerCancelled true hinv id fun _ => rfl
    | creator => exact creatorInv_creatorStep hinv hstep
    | daemon => exact creatorInv_daemonStep hinv hpublished hstep

/-! The end of a creation. -/

def Creator.rank (n : ℕ) (acquired : ℕ) : Creator X → ℕ
  | .entered => 2 * n + acquired + 7
  | .opening => 2 * n + acquired + 6
  | .connecting m => 2 * m + acquired + 5
  | .closing _ _ slots => slots.length + 1
  | .rechecking => 2
  | .joining _ => 1
  | .failed _ | .published => 0

def Daemon.rank (idle : ℕ) : Daemon X → ℕ
  | .waiting => idle + 2
  | .closing _ slots => slots.length + 1
  | .absent | .stopped _ => 0

/-- A bound on the steps that are left, cancellations included. -/
def State.rank (n : ℕ) (s : State X) : ℕ :=
  s.creator.rank n s.acquired.length + s.daemon.rank s.idle.length +
    (!s.callerCancelled).toNat + (!s.switchCancelled).toNat

theorem rank_creatorStep (hstep : creatorStep env n s = some t) : t.rank n < s.rank n := by
  rw [creatorStep] at hstep
  rw [State.rank, State.rank]
  split at hstep
  · rename_i hcreator
    rw [hcreator]
    split at hstep <;> cases hstep <;> simp only [Creator.rank] <;> omega
  · rename_i hcreator
    rw [hcreator]
    dsimp only at hstep
    split at hstep <;> cases hstep <;>
      simp only [Creator.rank, State.write, State.attempt] <;> omega
  · rename_i hcreator
    rw [hcreator]
    cases hstep
    rw [register]
    split
    · simp only [Creator.rank]
      omega
    · simp only [Creator.rank, Daemon.rank, List.length_reverse]
      omega
  · rename_i m hcreator
    rw [hcreator]
    dsimp only at hstep
    split at hstep <;> cases hstep <;>
      simp only [Creator.rank, State.write, State.attempt, List.length_cons] <;> omega
  · rename_i hcreator
    rw [hcreator]
    cases hstep
    simp only [Creator.rank, State.write, List.length_cons]
    omega
  · rename_i hcreator
    rw [hcreator]
    cases hstep
    simp only [Creator.rank, State.write, List.length_nil]
    omega
  · rename_i hcreator
    rw [hcreator]
    split at hstep
    · cases hstep
      simp only [Creator.rank]
      omega
    · obtain ⟨lifecycle, stopping, hshutdown, -⟩ := startShutdown_nil s
      rw [hshutdown] at hstep
      cases hstep
      simp only [Creator.rank]
      omega
  · rename_i hcreator
    rw [hcreator]
    split at hstep
    · cases hstep
      simp only [Creator.rank]
      omega
    · cases hstep
  · cases hstep
  · cases hstep

theorem rank_daemonStep (hstep : daemonStep env s = some t) : t.rank n < s.rank n := by
  rw [daemonStep] at hstep
  rw [State.rank, State.rank]
  split at hstep
  · cases hstep
  · rename_i hdaemon
    rw [hdaemon]
    split at hstep
    · obtain ⟨lifecycle, stopping, hshutdown, -⟩ := startShutdown_nil s
      rw [hshutdown] at hstep
      cases hstep
      simp only [Daemon.rank]
      omega
    · cases hstep
  · rename_i hdaemon
    rw [hdaemon]
    cases hstep
    simp only [Daemon.rank, State.write, List.length_cons]
    omega
  · rename_i hdaemon
    rw [hdaemon]
    cases hstep
    simp only [Daemon.rank, State.write, List.length_nil]
    omega
  · cases hstep

/-- Every step brings the end nearer. -/
theorem rank_step {a : Action} (h : (machine env n).step s a = some t) : t.rank n < s.rank n := by
  obtain ⟨-, hstep⟩ := isPublished_of_step h
  cases a with
  | cancelCaller =>
    rw [step] at hstep
    split at hstep
    · cases hstep
    · rename_i hcaller
      cases hstep
      rw [State.rank, State.rank, eq_false_of_ne_true hcaller]
      simp only [Bool.not_true, Bool.not_false, Bool.toNat_true, Bool.toNat_false]
      omega
  | cancelSwitch =>
    rw [step] at hstep
    split at hstep
    · cases hstep
    · rename_i hswitch
      cases hstep
      rw [State.rank, State.rank, eq_false_of_ne_true hswitch]
      simp only [Bool.not_true, Bool.not_false, Bool.toNat_true, Bool.toNat_false]
      omega
  | creator => exact rank_creatorStep hstep
  | daemon => exact rank_daemonStep hstep

/-- **No creation takes more steps than its rank.** -/
theorem length_le_of_run {as : List Action} (h : (machine env n).Run Guard.free s as t) :
    as.length ≤ s.rank n := by
  induction as generalizing s with
  | nil => exact Nat.zero_le _
  | cons a as ih =>
    obtain ⟨-, u, hu, hrest⟩ := h
    exact Nat.succ_le_of_lt (Nat.lt_of_le_of_lt (ih hrest) (rank_step hu))

theorem isPublished_iff : s.isPublished = true ↔ s.creator = .published := by
  rw [State.isPublished]
  split
  · rename_i h
    exact ⟨fun _ => h, fun _ => rfl⟩
  · rename_i h
    exact ⟨fun hf => absurd hf Bool.false_ne_true, fun hp => absurd hp h⟩

/-- **A creation that neither party can continue has ended.** -/
theorem ended_of_reachable (h : (machine env n).Reachable Guard.free s)
    (hcreator : (machine env n).step s .creator = none)
    (hdaemon : (machine env n).step s .daemon = none) :
    s.creator = .published ∨ ∃ report, s.creator = .failed report := by
  have hinv := creatorInv_of_reachable h
  simp only [machine, step] at hcreator hdaemon
  split at hcreator
  · exact .inl (isPublished_iff.mp ‹_›)
  rename_i hpublished
  rw [if_neg hpublished] at hdaemon
  rw [creatorStep] at hcreator
  split at hcreator
  · split at hcreator <;> cases hcreator
  · split at hcreator <;> cases hcreator
  · cases hcreator
  · dsimp only at hcreator
    split at hcreator <;> cases hcreator
  · cases hcreator
  · cases hcreator
  · split at hcreator <;> cases hcreator
  -- a creator that waits for the daemon has woken it, so that the daemon can go on
  · rename_i failures hjoining
    rw [hjoining] at hinv
    obtain ⟨-, hd, hstopping, -⟩ := hinv
    rw [daemonStep] at hdaemon
    cases hs : s.daemon with
    | absent =>
      rw [hs] at hd
      exact hd.elim
    | waiting =>
      rw [hs] at hdaemon
      simp only [hstopping hs, Bool.true_or, if_true] at hdaemon
      cases hdaemon
    | closing cleanup slots =>
      rw [hs] at hdaemon
      cases slots <;> cases hdaemon
    | stopped result =>
      rw [hs] at hcreator
      cases hcreator
  · exact .inr ⟨_, ‹_›⟩
  · exact .inl ‹_›

/-- What the log has of the acquisitions: those tried that have succeeded. -/
def Logged (env : Surroundings X) (s : State X) : Prop :=
  ∀ p r, (p, .acquired r) ∈ s.log ↔ p = .creator ∧ r ∈ s.tried ∧ env.acquire r = .ok ()

theorem Logged.of_eq (h : Logged env s) (hlog : t.log = s.log) (htried : t.tried = s.tried) :
    Logged env t := by
  intro p r
  rw [hlog, htried]
  exact h p r

theorem Logged.released (h : Logged env s) {q : Party} {x : Resource}
    (hlog : t.log = s.log ++ [(q, .released x)]) (htried : t.tried = s.tried) : Logged env t := by
  intro p r
  rw [hlog, htried, List.mem_append, h p r]
  simp

theorem Logged.failed (h : Logged env s) {x : Resource} {c : Cause X}
    (hx : env.acquire x = .error c) (hlog : t.log = s.log) (htried : t.tried = s.tried ++ [x]) :
    Logged env t := by
  intro p r
  rw [hlog, htried, h p r, List.mem_append, List.mem_singleton]
  refine and_congr_right fun _ => ⟨fun ⟨hr, hok⟩ => ⟨.inl hr, hok⟩, fun ⟨hr, hok⟩ => ⟨?_, hok⟩⟩
  refine hr.resolve_right fun he => ?_
  rw [he, hx] at hok
  cases hok

theorem Logged.acquired (h : Logged env s) {x : Resource} (hx : env.acquire x = .ok ())
    (hlog : t.log = s.log ++ [(.creator, .acquired x)]) (htried : t.tried = s.tried ++ [x]) :
    Logged env t := by
  intro p r
  rw [hlog, htried, List.mem_append, h p r, List.mem_append, List.mem_singleton,
    List.mem_singleton]
  constructor
  · rintro (⟨rfl, hr, hok⟩ | he)
    · exact ⟨rfl, .inl hr, hok⟩
    · cases he
      exact ⟨rfl, .inr rfl, hx⟩
  · rintro ⟨rfl, hr | rfl, hok⟩
    · exact .inl ⟨rfl, hr, hok⟩
    · exact .inr rfl

theorem logged_creatorStep (h : Logged env s) (hstep : creatorStep env n s = some t) :
    Logged env t := by
  rw [creatorStep] at hstep
  split at hstep
  · split at hstep <;> cases hstep <;> exact h.of_eq rfl rfl
  · dsimp only at hstep
    split at hstep
    · rename_i c hc
      cases hstep
      exact h.failed hc rfl rfl
    · rename_i hc
      cases hstep
      exact h.acquired hc rfl rfl
  · cases hstep
    rw [register]
    split <;> exact h.of_eq rfl rfl
  · dsimp only at hstep
    split at hstep
    · rename_i c hc
      cases hstep
      exact h.failed hc rfl rfl
    · rename_i hc
      cases hstep
      exact h.acquired hc rfl rfl
  · cases hstep
    exact h.released rfl rfl
  · cases hstep
    exact h.released rfl rfl
  · split at hstep
    · cases hstep
      exact h.of_eq rfl rfl
    · obtain ⟨lifecycle, stopping, hshutdown, -⟩ := startShutdown_nil s
      rw [hshutdown] at hstep
      cases hstep
      exact h.of_eq rfl rfl
  · split at hstep
    · cases hstep
      exact h.of_eq rfl rfl
    · cases hstep
  · cases hstep
  · cases hstep

theorem logged_daemonStep (h : Logged env s) (hstep : daemonStep env s = some t) :
    Logged env t := by
  rw [daemonStep] at hstep
  split at hstep
  · cases hstep
  · split at hstep
    · obtain ⟨lifecycle, stopping, hshutdown, -⟩ := startShutdown_nil s
      rw [hshutdown] at hstep
      cases hstep
      exact h.of_eq rfl rfl
    · cases hstep
  · cases hstep
    exact h.released rfl rfl
  · cases hstep
    exact h.released rfl rfl
  · cases hstep

/-- **The acquisitions of the log** are those tried that have succeeded. -/
theorem logged_of_reachable (h : (machine env n).Reachable Guard.free s) : Logged env s := by
  refine h.induction (I := Logged env) ?_ ?_
  · rintro _ rfl p r
    simp [start]
  · intro s a t hlogged _ hstep
    obtain ⟨-, hstep⟩ := isPublished_of_step hstep
    cases a with
    | cancelCaller =>
      rw [step] at hstep
      split at hstep <;> cases hstep
      exact hlogged.of_eq rfl rfl
    | cancelSwitch =>
      rw [step] at hstep
      split at hstep <;> cases hstep
      exact hlogged.of_eq rfl rfl
    | creator => exact logged_creatorStep hlogged hstep
    | daemon => exact logged_daemonStep hlogged hstep

/-- **What a creation for Eio ends in.** A pool stands for all resources; a failure is reported with
those of all closings, and nothing is left that has been acquired. The closings are of one party. The
log has every acquisition that was tried and succeeded. -/
structure AllOrNothing (env : Surroundings X) (n : ℕ) (s : State X) : Prop where
  published : s.creator = .published → env.acquire .database = .ok () ∧
    (∀ i < n, env.acquire (.connection i) = .ok ()) ∧ s.log = opened n
  failed : ∀ report, s.creator = .failed report → Undone env s report
  disposer : ∀ p r, (p, .released r) ∈ s.log → p = s.disposer
  acquired : Logged env s

theorem Closing.mem_released {p q : Party} {slots todo : List ℕ}
    {before failures : List (Failure X)} {log : List (Party × Event)} {r : Resource}
    (h : Closing env p slots before failures todo log) (hr : (q, .released r) ∈ log) : q = p := by
  obtain ⟨closed, -, hlog, -⟩ := h
  rw [hlog] at hr
  rcases List.mem_append.mp hr with hr | hr
  · obtain ⟨-, r', he⟩ := mem_opened hr
    cases he
  · obtain ⟨i, -, he⟩ := List.mem_map.mp hr
    cases he
    rfl

theorem not_released_of_opened {k : ℕ} {p : Party} {r : Resource} (hlog : s.log = opened k)
    (hr : (p, .released r) ∈ s.log) : False := by
  rw [hlog] at hr
  obtain ⟨-, r', he⟩ := mem_opened hr
  cases he

theorem DaemonInv.disposer (h : DaemonInv env n s s.daemon) {p : Party} {r : Resource}
    (hr : (p, .released r) ∈ s.log) : p = s.disposer := by
  rw [State.disposer]
  cases hd : s.daemon with
  | absent =>
    rw [hd] at h
    exact h.elim
  | waiting =>
    rw [hd] at h
    exact (not_released_of_opened h.1 hr).elim
  | closing cleanup slots =>
    rw [hd] at h
    exact h.1.mem_released hr
  | stopped result =>
    rw [hd] at h
    exact (Closed.mem_released h hr).1

/-- **Only one party closes**, the creator up to the registration of the daemon. -/
theorem disposer_of_inv (h : CreatorInv env n s s.creator) {p : Party} {r : Resource}
    (hr : (p, .released r) ∈ s.log) : p = s.disposer := by
  cases hcreator : s.creator with
  | entered =>
    rw [hcreator] at h
    rw [h.2.1] at hr
    cases hr
  | opening =>
    rw [hcreator] at h
    rw [h.2.1] at hr
    cases hr
  | connecting m =>
    rw [hcreator] at h
    obtain ⟨-, k, -, -, hlog⟩ := h
    exact (not_released_of_opened hlog hr).elim
  -- before the registration the creator closes
  | closing recheck failures slots =>
    rw [hcreator] at h
    obtain ⟨hdaemon, k, f, -, -, hclosing⟩ := h
    rw [State.disposer, hdaemon]
    exact hclosing.mem_released hr
  -- after it the daemon does
  | rechecking =>
    rw [hcreator] at h
    exact h.2.1.disposer hr
  | joining failures =>
    rw [hcreator] at h
    exact h.2.1.disposer hr
  | failed report =>
    rw [hcreator] at h
    exact h.2.disposer p r hr
  | published =>
    rw [hcreator] at h
    exact (not_released_of_opened h.2 hr).elim

/-- **The creation of a pool for Eio is all or nothing**, whenever the cancellations come. -/
theorem allOrNothing_of_reachable (h : (machine env n).Reachable Guard.free s) :
    AllOrNothing env n s where
  published hs := by
    have hinv := creatorInv_of_reachable h
    rw [hs] at hinv
    exact ⟨hinv.1.database, hinv.1.connections, hinv.2⟩
  failed report hs := by
    have hinv := creatorInv_of_reachable h
    rw [hs] at hinv
    exact hinv.2
  disposer p r hr := disposer_of_inv (creatorInv_of_reachable h) hr
  acquired := logged_of_reachable h

end Runs

end DuckdbMl.Pool.Eio
