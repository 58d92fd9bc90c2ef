import DuckdbMl.Delivery.Sessions

/-!
# Where an interrupt may fall

In every run, whatever the order of the steps of the worker, of the controllers and of those who
cancel: no section of the guard ends in a fatal error; an interrupt falls in a call that was
admitted before the cancellation and has not ended; and nothing is admitted for a request that is
cancelled.

## Main results

* `no_fatal_error`: no run fails
* `interrupt_confined`: an interrupt falls in an open admitted call of the cancelled request
* `admitted_before_latch`: so does each function of the engine that needs an admission
* `nothing_admitted`: what is still called after a cancellation
-/

namespace DuckdbMl.Delivery

open Transition (Legal Guard System)

variable {w : World} {l k : List Event} {r : ℕ}

/-! ### Open admitted calls -/

/-- The call that is open was admitted, and nothing has been uninstalled since. -/
theorem exists_admitted (h : Legal Allowed k) {b : Bool} (hk : window k = some b) :
    ∃ m n, k = m ++ .admitted b :: n ∧ .ended ∉ m ∧ current k = current n ∧
      ∀ r, current n = some r → .cancelled r ∉ n := by
  induction k with
  | nil => cases hk
  | cons e k ih =>
    obtain ⟨he, hl⟩ := h
    -- an event that leaves the open call and the request alone
    have hskip : window k = some b → e ≠ .ended → current (e :: k) = current k →
        ∃ m n, e :: k = m ++ .admitted b :: n ∧ .ended ∉ m ∧ current (e :: k) = current n ∧
          ∀ r, current n = some r → .cancelled r ∉ n := by
      intro hw hne hc
      obtain ⟨m, n, rfl, hm, hcurrent, hn⟩ := ih hl hw
      refine ⟨e :: m, n, rfl, fun hmem => ?_, hc.trans hcurrent, hn⟩
      rcases List.mem_cons.mp hmem with heq | hmem
      · exact hne heq.symm
      · exact hm hmem
    cases e with
    | admitted i =>
      cases hk
      exact ⟨[], k, rfl, by simp, rfl, he.2⟩
    | suppressed => cases hk
    | ended => cases hk
    | installed r => cases he.2.1.symm.trans hk
    | uninstalled r => cases he.2.1.symm.trans hk
    | cancelled r => exact hskip hk (by simp) rfl
    | entered c => exact hskip hk (by simp) rfl
    | returned c => exact hskip hk (by simp) rfl
    | interrupted r => exact hskip hk (by simp) rfl

/-- Without an admission no call is opened. -/
theorem window_append (hl : ∀ b, .admitted b ∉ l) (hk : window k = none) :
    window (l ++ k) = none := by
  induction l with
  | nil => exact hk
  | cons e l ih =>
    have hl' := ih fun b hb => hl b (List.mem_cons_of_mem _ hb)
    cases e with
    | admitted b => exact absurd List.mem_cons_self (hl b)
    | suppressed | ended => rfl
    | installed | uninstalled | cancelled | entered | returned | interrupted => exact hl'

/-- A request stays installed until it is uninstalled. -/
theorem current_append (h : Legal Allowed (l ++ k)) (hk : current k = some r)
    (hl : .uninstalled r ∉ l) : current (l ++ k) = some r := by
  induction l with
  | nil => exact hk
  | cons e l ih =>
    obtain ⟨he, hlegal⟩ := h
    have hc := ih hlegal fun hmem => hl (List.mem_cons_of_mem _ hmem)
    cases e with
    | installed x => cases he.1.symm.trans hc
    | uninstalled x =>
      cases he.1.symm.trans hc
      exact absurd List.mem_cons_self hl
    | admitted | suppressed | ended | cancelled | entered | returned | interrupted => exact hc

/-! ### A run -/

def answers (n : ℕ) : List Label := .replicate n (.work ⟨true, true⟩)

/-- A statement is being extracted when its request is cancelled. -/
def sampleCall : List Label :=
  [.take .worker, .start .connect] ++ answers 9 ++
    [.create, .install, .spawn, .start (.execute false)] ++ answers 6 ++
      [.cancel 0, .take .controller]

def sampleInterrupt : List Label := sampleCall ++ .replicate 5 .control

/-- The stub has returned. -/
def sampleReturn : List Label := sampleInterrupt ++ [.control, .give .controller] ++ answers 19

def worldAfter (ls : List Label) : World :=
  ((system.exec (some World.initial) ls).bind id).getD World.initial

theorem reachable_sampleCall : system.Reachable Guard.free (some (worldAfter sampleCall)) :=
  ⟨_, sampleCall, rfl, System.run_of_execWithin (g := fun _ _ => true) (fun _ _ _ => trivial) rfl⟩

theorem reachable_sampleInterrupt :
    system.Reachable Guard.free (some (worldAfter sampleInterrupt)) :=
  ⟨_, sampleInterrupt, rfl,
    System.run_of_execWithin (g := fun _ _ => true) (fun _ _ _ => trivial) rfl⟩

theorem reachable_sampleReturn : system.Reachable Guard.free (some (worldAfter sampleReturn)) :=
  ⟨_, sampleReturn, rfl,
    System.run_of_execWithin (g := fun _ _ => true) (fun _ _ _ => trivial) rfl⟩

/-! ### Results -/

theorem legal_of_reachable (h : system.Reachable Guard.free (some w)) : Legal Allowed w.log := by
  obtain ⟨u, hu, hinv⟩ := inv_of_reachable h
  cases hu
  exact hinv.log.legal

/-- **No run fails**: the guard is never found taken by a thread that holds the runtime, no section
ends in a fatal error, and no assertion of the library fails. -/
theorem no_fatal_error {s : Option World} (h : system.Reachable Guard.free s) :
    s.isSome = true := by
  obtain ⟨w, rfl, -⟩ := inv_of_reachable h
  rfl

theorem no_fatal_error_sampleReturn : (some (worldAfter sampleReturn)).isSome = true :=
  no_fatal_error reachable_sampleReturn

/-- **An interrupt is confined**: its request is installed, with an admitted call that has not ended
and was admitted for it before its cancellation; the engine is then in no function but one that may be
interrupted, so in no rollback, in no binding and in no cleanup. -/
theorem interrupt_confined (h : system.Reachable Guard.free (some w))
    (hlog : w.log = l ++ .interrupted r :: k) :
    current k = some r ∧
    (∃ m n, k = m ++ .admitted true :: n ∧ .ended ∉ m ∧ .cancelled r ∈ m ∧ .cancelled r ∉ n ∧
      current n = some r) ∧
    ∀ c, inside k = some c → c.window = .user := by
  have hlegal := legal_of_reachable h
  rw [hlog] at hlegal
  obtain ⟨hcurrent, hcancelled, hwindow⟩ := hlegal.at_event
  have hk := hlegal.of_append.2
  refine ⟨hcurrent, ?_, fun c hc => ?_⟩
  · obtain ⟨m, n, rfl, hm, hmn, hn⟩ := exists_admitted hk hwindow
    have hr := hmn.symm.trans hcurrent
    refine ⟨m, n, rfl, hm, ?_, hn r hr, hr⟩
    -- the call would not have been admitted after the cancellation
    rcases List.mem_append.mp hcancelled with hmem | hmem
    · exact hmem
    · exact absurd ((List.mem_cons.mp hmem).resolve_left (by simp)) (hn r hr)
  · have hopen := (window_of_inside hk hc).symm.trans hwindow
    cases hw : c.window
    · rfl
    all_goals
      rw [hw] at hopen
      cases hopen

theorem interrupt_confined_sampleInterrupt : Call.extract.window = .user :=
  (interrupt_confined (l := []) (r := 0) (k := (worldAfter sampleCall).log)
    reachable_sampleInterrupt rfl).2.2 .extract rfl

/-- **The linearization of admission**: a function of the engine that needs an admission is called
in a call that was admitted before any cancellation of the request that is installed; one that
needs none is called in no admitted call. -/
theorem admitted_before_latch (h : system.Reachable Guard.free (some w)) {c : Call}
    (hlog : w.log = l ++ .entered c :: k) :
    (∀ b, c.window.open_ = some b → ∃ m n, k = m ++ .admitted b :: n ∧ .ended ∉ m ∧
      current k = current n ∧ ∀ r, current k = some r → .cancelled r ∉ n) ∧
    (c.window.open_ = none → window k = none) ∧ inside k = none := by
  have hlegal := legal_of_reachable h
  rw [hlog] at hlegal
  obtain ⟨hinside, hwindow⟩ := hlegal.at_event
  refine ⟨fun b hb => ?_, hwindow.trans, hinside⟩
  obtain ⟨m, n, hmn, hm, hcurrent, hn⟩ :=
    exists_admitted hlegal.of_append.2 (hwindow.trans hb)
  exact ⟨m, n, hmn, hm, hcurrent, fun r hr => hn r (hcurrent.symm.trans hr)⟩

theorem admitted_before_latch_sampleCall :
    inside [.admitted true, .installed 0, .ended, .returned .connect, .entered .connect] = none :=
  (admitted_before_latch (l := [.cancelled 0]) (c := .extract) reachable_sampleCall rfl).2.2

/-- **After the cancellation** of the installed request nothing is admitted until it is uninstalled.
Once the call that was open has ended, the engine is asked for nothing but a rollback, other work
that needs no admission, and cleanups. -/
theorem nothing_admitted (h : system.Reachable Guard.free (some w))
    (hlog : w.log = l ++ .cancelled r :: k) (hr : current k = some r) (hl : .uninstalled r ∉ l) :
    (∀ b, .admitted b ∉ l) ∧
    ∀ l₁ l₂, l = l₁ ++ l₂ → window (l₂ ++ .cancelled r :: k) = none →
      ∀ c, .entered c ∈ l₁ → c.window = .work ∨ c.window = .cleanup := by
  have hlegal := legal_of_reachable h
  rw [hlog] at hlegal
  have hnone : ∀ b, .admitted b ∉ l := by
    intro b hb
    obtain ⟨m, n, rfl⟩ := List.append_of_mem hb
    rw [List.append_assoc, List.cons_append] at hlegal
    have hn : current (n ++ .cancelled r :: k) = some r :=
      current_append hlegal.of_append.2 hr fun hmem =>
        hl (List.mem_append_right _ (List.mem_cons_of_mem _ hmem))
    exact hlegal.at_event.2 r hn (List.mem_append_right _ List.mem_cons_self)
  -- so no call is open again, and what needs an open one is not entered
  refine ⟨hnone, ?_⟩
  rintro l₁ l₂ rfl hwindow c hc
  obtain ⟨m, n, rfl⟩ := List.append_of_mem hc
  have hn : window (n ++ (l₂ ++ .cancelled r :: k)) = none :=
    window_append (fun b hb => hnone b (by simp [hb])) hwindow
  have hentered : Legal Allowed (m ++ .entered c :: (n ++ (l₂ ++ .cancelled r :: k))) := by
    simpa using hlegal
  have hopen := hentered.at_event.2.symm.trans hn
  cases hw : c.window <;> rw [hw] at hopen
  · cases hopen
  · cases hopen
  · exact .inl rfl
  · exact .inr rfl

theorem nothing_admitted_sampleReturn :
    Call.destroyExtracted.window = .work ∨ Call.destroyExtracted.window = .cleanup :=
  (nothing_admitted (r := 0) (k := (worldAfter sampleCall).log.tail)
    (l := [.ended, .returned .destroyExtracted, .entered .destroyExtracted, .ended, .ended,
      .suppressed, .ended, .returned .extract, .interrupted 0])
    reachable_sampleReturn rfl rfl (by decide)).2
    [.ended, .returned .destroyExtracted, .entered .destroyExtracted, .ended, .ended, .suppressed]
    [.ended, .returned .extract, .interrupted 0] rfl rfl .destroyExtracted (by decide)

end DuckdbMl.Delivery
