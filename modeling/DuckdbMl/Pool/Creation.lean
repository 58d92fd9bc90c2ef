import DuckdbMl.Pool.Async
import DuckdbMl.Pool.Eio

/-!
# The creation of a pool

## Main results

* `creation_allOrNothing`: both adapters give a pool of all resources, or keep none
-/

namespace DuckdbMl.Pool

open Transition

/-- **Pool creation is all or nothing**, with any acquisitions and releases that fail. For Async
this is a single run; for Eio it is every state that the creator and the drain fiber reach under
cancellations at any time, and no run goes on for ever or stops before the creation has ended. -/
theorem creation_allOrNothing {E X Y : Type} (async : Async.Surroundings E X)
    (eio : Eio.Surroundings Y) (connections : ℕ) :
    Async.AllOrNothing async connections (Async.create async connections Async.start) ∧
    (∀ s, (Eio.machine eio connections).Reachable Guard.free s →
      Eio.AllOrNothing eio connections s ∧
      ((Eio.machine eio connections).step s .creator = none →
        (Eio.machine eio connections).step s .daemon = none →
          s.creator = .published ∨ ∃ report, s.creator = .failed report)) ∧
    ∀ as s, (Eio.machine eio connections).Run Guard.free Eio.start as s →
      as.length ≤ Eio.start.rank connections (X := Y) :=
  ⟨Async.create_allOrNothing async connections,
    fun _ h => ⟨Eio.allOrNothing_of_reachable h, Eio.ended_of_reachable h⟩,
    fun _ _ h => Eio.length_le_of_run h⟩

/-- The second connection fails, and so does the release of the first request helper. -/
def brokenAsync : Async.Surroundings ℕ ℕ where
  acquire r := if r = .connection 2 then .error (.expected 1) else .ok ()
  release r := if r = .helper 1 then .error (.raised 2) else .ok ()
  offload := .ok ()

/-- The third connection fails, and so does the closing of the second one. -/
def brokenEio : Eio.Surroundings ℕ where
  acquire r := if r = .connection 2 then .error (.raised (.other 5)) else .ok ()
  release r := if r = .connection 1 then .error (.raised (.other 7)) else .ok ()
  callerReason := 1
  switchReason := 2

/-- With two connections, a cancellation of the switch comes after the drain fiber has been
registered. With three the creator closes. -/
theorem creation_allOrNothing_broken :
    Async.AllOrNothing brokenAsync 3 (Async.create brokenAsync 3 Async.start) ∧
    (∃ s, s.log = Eio.opened 2 ++ [(.daemon, .released (.connection 0)),
        (.daemon, .released (.connection 1)), (.daemon, .released .database)] ∧
      Eio.AllOrNothing brokenEio 2 s) ∧
    ∃ s, s.creator = .failed (.lifecycleFailure [⟨.connect, .raised (.other 5)⟩,
        ⟨.closeConnection, .raised (.other 7)⟩]) ∧ Eio.AllOrNothing brokenEio 3 s := by
  have h := creation_allOrNothing brokenAsync brokenEio
  obtain ⟨s, hs, hlog⟩ := @System.exists_reachable_of_exec _ _ (Eio.machine brokenEio 2) _
    Eio.State.log Eio.start [.creator, .creator, .creator, .creator, .creator, .cancelSwitch,
      .creator, .daemon, .daemon, .daemon, .daemon, .creator] _ rfl rfl
  obtain ⟨u, hu, hfailed⟩ := @System.exists_reachable_of_exec _ _ (Eio.machine brokenEio 3) _
    Eio.State.creator Eio.start (.replicate 8 .creator) _ rfl rfl
  exact ⟨(h 3).1, ⟨s, hlog, ((h 2).2.1 s hs).1⟩, u, hfailed, ((h 3).2.1 u hu).1⟩

/-- The connection is closed before the database, and the helpers are released last. -/
example : ((Async.create brokenAsync 2 Async.start).2.log.drop 4) =
    [.acquired (.connection 1), .released (.connection 1), .released .database,
      .released (.helper 0), .released (.helper 1), .released (.helper 2)] := by rfl

end DuckdbMl.Pool
