import DuckdbMl.Resource.Exclusion

/-!
# One database and its connections

The parties of each connection step on their own; `connect`, `close_database` and
`force_close_database` work under the gate of the database. A forced close revokes every child
before it waits for any one, and then closes each by `force_close_connection`, which a free party
of that connection runs for it. Every run of the database is, seen from one of its connections, a
run of that connection.

## Main definitions

* `Database`, `Closer`, `Database.step`: the database with the threads that close it
* `database`: the system

## Main results

* `connection_of_database`: a run of the database is a run of each of its connections
* `exclusion_of_database`: exclusion on every connection, in every orderly run
* `exclusion_violated`: each of the three conditions on the steps is needed
-/

set_option linter.unusedSectionVars false

namespace DuckdbMl.Resource

open Transition

variable {N D A K : Type} [DecidableEq N] [DecidableEq D] [DecidableEq A] [DecidableEq K]

/-- The parties of one connection over its owner. -/
abbrev Connection (A K : Type) := World (Owner A K) A (Party A)

/-- A thread in `close_database` or `force_close_database`. -/
inductive Closer (N A : Type)
  | out
  | waiting
  | revoking (cs all : List N)
  | forcing (cs : List N)
  /-- The party `a` of the connection `n` runs `force_close_connection`. -/
  | closing (n : N) (a : A) (cs : List N)
  | destroying
  | finishing

/-- The labels: a party's step on a connection, and what the database's own threads do. The party
of a label `force` is the one that a forced close borrows. -/
inductive DatabaseAct (N D A K : Type)
  | on (n : N) (l : A × Act A K)
  | connect (n : N)
  | close (d : D)
  | forceClose (d : D)
  | next (d : D)
  | force (d : D) (a : A)

/-- The database: its gate, the connections that it lists, and all that were ever opened. -/
structure Database (N D A K : Type) where
  state : State
  busy : Bool
  children : List N
  opened : List N
  connections : N → Connection A K
  closers : D → Closer N A
  handle : Bool

namespace Database

/-- A database just opened. -/
def fresh : Database N D A K where
  state := .opened
  busy := false
  children := []
  opened := []
  connections := fun _ => ⟨Owner.fresh, fun _ => .out⟩
  closers := fun _ => .out
  handle := true

variable (capacity : ℕ) (db : Database N D A K)

/-- A party's step on the connection `n`; `unregister` follows the close of its handle. -/
def onConnection (n : N) (l : A × Act A K) : Option (Database N D A K) :=
  ((connection A K capacity).system.step (db.connections n) l).map fun c =>
    { db with
      connections := Function.update db.connections n c
      children := if c.shared.handle then db.children else db.children.filter (· ≠ n) }

def setCloser (d : D) (c : Closer N A) : Database N D A K :=
  { db with closers := Function.update db.closers d c }

/-- **A step of the database.** -/
def step : DatabaseAct N D A K → Option (Database N D A K)
  | .on n l => if n ∈ db.opened then db.onConnection capacity n l else none
  -- `connect`: admission, and the registration of the new child.
  | .connect n =>
    if db.state = .opened ∧ db.busy = false ∧ n ∉ db.opened then
      some { db with children := n :: db.children, opened := n :: db.opened }
    else none
  | .close d =>
    match db.closers d with
    | .out =>
      if db.state = .opened ∧ db.busy = false ∧ db.children = [] then
        some ({ db with state := .closing, busy := true }.setCloser d .destroying)
      else some db
    | _ => none
  | .forceClose d =>
    match db.closers d with
    | .out =>
      if db.state = .closed then some db
      else some ({ db with state := .closing }.setCloser d .waiting)
    | _ => none
  | .next d =>
    match db.closers d with
    | .waiting =>
      if db.busy then none
      else if db.state = .closed then some (db.setCloser d .out)
      else some ({ db with busy := true }.setCloser d (.revoking db.children db.children))
    | .revoking [] all => some (db.setCloser d (.forcing all))
    | .forcing [] => some (db.setCloser d .destroying)
    | .closing n a cs =>
      match (db.connections n).parties a with
      | .out => some (db.setCloser d (.forcing cs))
      | _ => none
    | .destroying =>
      some ({ db with state := .closed, busy := false, handle := false }.setCloser d .finishing)
    | .finishing => some ({ db with busy := false }.setCloser d .out)
    | _ => none
  | .force d a =>
    match db.closers d with
    | .revoking (n :: cs) all =>
      match (db.connections n).parties a with
      | .out => (db.onConnection capacity n (a, .revoke)).map (·.setCloser d (.revoking cs all))
      | _ => none
    | .forcing (n :: cs) =>
      match (db.connections n).parties a with
      | .out => (db.onConnection capacity n (a, .forceClose)).map (·.setCloser d (.closing n a cs))
      | _ => none
    | _ => none

end Database

/-- **One database**, which caches `capacity` statements a connection. -/
def database (N D A K : Type) [DecidableEq N] [DecidableEq D] [DecidableEq A] [DecidableEq K]
    (capacity : ℕ) : System (Database N D A K) (DatabaseAct N D A K) where
  start db := db = Database.fresh
  step db l := db.step capacity l

/-- The conditions on the steps of the connections. -/
def OrderlyDatabase (db : Database N D A K) : DatabaseAct N D A K → Prop
  | .on n l => Orderly (db.connections n) l
  | _ => True

/-- A party outside that lends no statement is orderly. -/
theorem orderly_of_out {w : Connection A K} {l : A × Act A K} (h : w.parties l.1 = .out)
    (hl : ∀ c tx, l.2 ≠ .lend c tx) : Orderly w l := by
  refine ⟨fun c tx h => absurd h (hl c tx), fun c hf => ?_, fun hf => ?_⟩
  · simp [h] at hf
  · simp [h] at hf

theorem Database.onConnection_connections {capacity : ℕ} {db db' : Database N D A K} {n : N}
    {l : A × Act A K} (h : db.onConnection capacity n l = some db') (m : N) :
    db'.connections m = db.connections m ∨
      m = n ∧ (connection A K capacity).system.step (db.connections n) l =
        some (db'.connections m) := by
  obtain ⟨c, hc, rfl⟩ := Option.map_eq_some_iff.mp h
  by_cases hm : m = n
  · subst hm
    exact .inr ⟨rfl, by simpa using hc⟩
  · exact .inl (by simp [hm])

/-- A step of the database is on each of its connections a step of one of its parties, or none. -/
theorem Database.step_connections {capacity : ℕ} {db db' : Database N D A K}
    {l : DatabaseAct N D A K} (h : db.step capacity l = some db') (hg : OrderlyDatabase db l)
    (m : N) : db'.connections m = db.connections m ∨
      ∃ l', Orderly (db.connections m) l' ∧
        (connection A K capacity).system.step (db.connections m) l' = some (db'.connections m) := by
  cases l with
  -- a step of a party is one of its connection
  | on n l =>
    simp only [Database.step] at h
    split at h
    · rcases Database.onConnection_connections h m with hm | ⟨rfl, hm⟩
      · exact .inl hm
      · exact .inr ⟨l, hg, hm⟩
    · cases h
  -- the bookkeeping of the database leaves the connections as they are
  | connect n =>
    simp only [Database.step] at h
    split at h
    · obtain rfl := Option.some.inj h
      exact .inl rfl
    · cases h
  | close d =>
    simp only [Database.step] at h
    split at h
    · split at h <;> obtain rfl := Option.some.inj h <;> exact .inl rfl
    · cases h
  | forceClose d =>
    simp only [Database.step] at h
    split at h
    · split at h <;> obtain rfl := Option.some.inj h <;> exact .inl rfl
    · cases h
  | next d =>
    left
    simp only [Database.step] at h
    split at h
    all_goals grind [Database.setCloser]
  -- a forced close of the database revokes and closes its connections, each as a party that
  -- was out
  | force d a =>
    simp only [Database.step] at h
    split at h
    · split at h
      case h_1 n cs all _ hout =>
        obtain ⟨db₁, h₁, rfl⟩ := Option.map_eq_some_iff.mp h
        rcases Database.onConnection_connections h₁ m with hm | ⟨rfl, hm⟩
        · exact .inl hm
        · exact .inr ⟨(a, .revoke), orderly_of_out hout (by simp), hm⟩
      case h_2 => cases h
    · split at h
      case h_1 n cs _ hout =>
        obtain ⟨db₁, h₁, rfl⟩ := Option.map_eq_some_iff.mp h
        rcases Database.onConnection_connections h₁ m with hm | ⟨rfl, hm⟩
        · exact .inl hm
        · exact .inr ⟨(a, .forceClose), orderly_of_out hout (by simp), hm⟩
      case h_2 => cases h
    · cases h

/-- **A run of the database is a run of each of its connections.** -/
theorem connection_of_database {capacity : ℕ} {db : Database N D A K}
    (h : (database N D A K capacity).Reachable OrderlyDatabase db) (n : N) :
    (connection A K capacity).system.Reachable Orderly (db.connections n) := by
  refine System.Reachable.induction
    (I := fun db => (connection A K capacity).system.Reachable Orderly (db.connections n))
    (fun db hdb => ?_) (fun db l db' ih hg hs => ?_) h
  · obtain rfl : db = Database.fresh := hdb
    exact System.Reachable.refl ⟨rfl, fun _ => rfl⟩
  · rcases Database.step_connections hs hg n with hn | ⟨l', ho, hn⟩
    · exact hn ▸ ih
    · exact ih.tail ho hn

/-- **Gate exclusivity and single destruction**: in every orderly run of a database, exclusion
holds on each of its connections. -/
theorem exclusion_of_database {capacity : ℕ} {db : Database N D A K}
    (h : (database N D A K capacity).Reachable OrderlyDatabase db) (n : N) :
    Exclusion capacity (db.connections n) :=
  exclusion_of_reachable (connection_of_database h n)

/-! ## The conditions are needed -/

/-- The steps of party `a` on the connection 0. -/
def party (a : A) (acts : List (Act A ℕ)) : List (DatabaseAct ℕ ℕ A ℕ) :=
  acts.map fun act => .on 0 (a, act)

/-- A party prepares the statement 0 and caches it. -/
def preparing (a : A) : List (DatabaseAct ℕ ℕ A ℕ) :=
  .connect 0 :: party a
    [.operate (.plain none none), .ok, .ok, .register true, .ok, .cacheAdd 0 0]

/-- Whether the parties 0 and 1 of the connection 0 are inside native work. -/
def both (db : Database ℕ ℕ ℕ ℕ) : Bool × Bool :=
  (((db.connections 0).parties 0).native, ((db.connections 0).parties 1).native)

theorem fresh_start {capacity : ℕ} : (database ℕ ℕ A ℕ capacity).start Database.fresh := rfl

/-- A loan while no operation on a statement runs, and a claim of `force_close_child` or of a
request's cleanup while no request and no discarding operation is there. -/
def orderly (db : Database ℕ ℕ (Fin 3) ℕ) : DatabaseAct ℕ ℕ (Fin 3) ℕ → Bool
  | .on n (a, act) =>
    (!(act matches .lend _ _) || (List.finRange 3).all fun b =>
      !((db.connections n).parties b matches .op (.child _ _) _)) &&
    (!((db.connections n).parties a matches .force _ .waiting) ||
      (db.connections n).shared.requestLease.isNone) &&
    (!((db.connections n).parties a matches .force _ .waiting | .bridge _ .waiting) ||
      (db.connections n).shared.overrun.isNone)
  | _ => true

theorem orderly_of_check (db : Database ℕ ℕ (Fin 3) ℕ) (l : DatabaseAct ℕ ℕ (Fin 3) ℕ)
    (h : orderly db l = true) : OrderlyDatabase db l := by
  cases l with
  | on n l =>
    obtain ⟨a, act⟩ := l
    simp only [orderly, Bool.and_eq_true, Bool.or_eq_true, Bool.not_eq_true', List.all_eq_true,
      Option.isNone_iff_eq_none] at h
    obtain ⟨⟨hlend, hforce⟩, hoverrun⟩ := h
    refine ⟨?_, fun c hf r hr => ?_, fun hf => ?_⟩
    · rintro c tx rfl b ⟨allowResult, pc, hb, -⟩
      have := hlend.resolve_left (by simp) b (List.mem_finRange b)
      simp [hb] at this
    · have := hforce.resolve_left (by simp_all)
      simp_all
    · refine hoverrun.resolve_left ?_
      obtain ⟨c, hf⟩ | ⟨r, hf⟩ := hf <;> simp_all
  | _ => trivial

/-- A statement is lent to a transaction, executed in it and taken back; it is removed from the
cache while a request comes and goes, and then destroyed by the party that has waited for it. -/
theorem exclusion_of_database_lent : ∃ db : Database ℕ ℕ (Fin 3) ℕ,
    (database ℕ ℕ (Fin 3) ℕ 1).Reachable OrderlyDatabase db ∧
      (List.finRange 3).map (fun a => ((db.connections 0).parties a).native) = [true, false, false] ∧
      Exclusion 1 (db.connections 0) := by
  obtain ⟨db, hdb, hb⟩ := System.exists_reachable_of_execWithin (S := database ℕ ℕ (Fin 3) ℕ 1)
    (l := preparing 0 ++ party 1 [.transaction none, .ok] ++
      party 0 [.lend 0 (some 1), .operate (.child 0 true), .ok, .ok, .snapshot, .ok, .ok, .ok,
        .operate (.child 0 true), .ok, .ok, .release, .ok, .lend 0 none] ++
      party 1 [.ok, .ok, .ok, .ok, .ok] ++ party 0 [.cacheRemove 0, .force 0] ++
      party 2 [.bridge none, .ok, .ok, .ok, .ok, .ok, .ok, .ok, .ok] ++ party 0 [.ok])
    (f := fun db => (List.finRange 3).map fun a => ((db.connections 0).parties a).native)
    (b := [true, false, false]) orderly_of_check fresh_start rfl
  exact ⟨db, hdb, hb, exclusion_of_database hdb 0⟩

/-- **Without the conditions two parties meet inside native work**: a request is installed while
an evicted statement is destroyed; a discard closes the gate under its own operation, which is
still running when an evicted statement is destroyed; and an operation that has read the
transaction of its statement is admitted into that transaction's settlement. -/
theorem exclusion_violated :
    (∃ db, (database ℕ ℕ ℕ ℕ 1).Reachable Guard.free db ∧ both db = (true, true) ∧
      (db.connections 0).shared.requestLease = some 1) ∧
    (∃ db, (database ℕ ℕ ℕ ℕ 1).Reachable Guard.free db ∧ both db = (true, true) ∧
      (db.connections 0).shared.overrun = some 0) ∧
    ∃ db, (database ℕ ℕ ℕ ℕ 1).Reachable Guard.free db ∧ both db = (true, true) ∧
      (db.connections 0).shared.lease = some 1 := by
  refine ⟨?_, ?_, ?_⟩
  · obtain ⟨db, hdb, hb⟩ := System.exists_reachable_of_exec (S := database ℕ ℕ ℕ ℕ 1)
      (l := preparing 0 ++ party 0 [.cacheRemove 0] ++ party 1 [.bridge none, .ok] ++
        party 0 [.force 0, .ok])
      (f := fun db => (both db, (db.connections 0).shared.requestLease))
      (b := ((true, true), some 1)) fresh_start rfl
    exact ⟨db, hdb, congrArg Prod.fst hb, congrArg Prod.snd hb⟩
  · obtain ⟨db, hdb, hb⟩ := System.exists_reachable_of_exec (S := database ℕ ℕ ℕ ℕ 1)
      (l := preparing 0 ++ party 0 [.operate (.child 0 true), .ok, .ok] ++
        party 1 [.cacheRemove 0, .force 0] ++
        party 0 [.snapshot, .ok, .error, .error, .ok, .ok, .ok, .ok, .ok] ++ party 1 [.ok])
      (f := fun db => (both db, (db.connections 0).shared.overrun))
      (b := ((true, true), some 0)) fresh_start rfl
    exact ⟨db, hdb, congrArg Prod.fst hb, congrArg Prod.snd hb⟩
  · obtain ⟨db, hdb, hb⟩ := System.exists_reachable_of_exec (S := database ℕ ℕ ℕ ℕ 1)
      (l := preparing 0 ++ party 1 [.transaction none, .ok] ++
        party 0 [.lend 0 (some 1), .operate (.child 0 true), .ok] ++ party 2 [.lend 0 none] ++
        party 1 [.error, .ok] ++ party 0 [.ok])
      (f := fun db => (both db, (db.connections 0).shared.lease))
      (b := ((true, true), some 1)) fresh_start rfl
    exact ⟨db, hdb, congrArg Prod.fst hb, congrArg Prod.snd hb⟩

end DuckdbMl.Resource
