import DuckdbMl.Transition.System
import Mathlib.Logic.Function.Basic

/-!
# Parties over a shared state

An interleaving runs parties, each at a position of its own, over one shared state; a step moves
one party and may change the shared state. Its invariants are proved thread by thread: what the
shared state satisfies, what each party knows at its position, and that the step of one party
leaves what the others know.

## Main definitions

* `Interleaving`, `Interleaving.system`: the local step, and the system of all parties
* `Interleaving.Modular`: a shared invariant with a local one for each party

## Main results

* `Interleaving.modular_step`, `Interleaving.modular_of_reachable`: the thread-modular rule
-/

namespace Transition

universe u v w x

/-- A shared state and the positions of the parties. -/
structure World (σ : Type u) (ι : Type v) (π : Type w) where
  shared : σ
  parties : ι → π

/-- The local step of a party: its identity, the shared state, its position and the label. -/
structure Interleaving (σ : Type u) (ι : Type v) (π : Type w) (β : Type x) where
  start : σ → Prop
  idle : π
  step : ι → σ → π → β → Option (σ × π)

namespace Interleaving

variable {σ : Type u} {ι : Type v} {π : Type w} {β : Type x} [DecidableEq ι]
variable (I : Interleaving σ ι π β)

/-- All parties, started idle. -/
def system : System (World σ ι π) (ι × β) where
  start w := I.start w.shared ∧ ∀ i, w.parties i = I.idle
  step w l := (I.step l.1 w.shared (w.parties l.1) l.2).map fun r =>
    ⟨r.1, Function.update w.parties l.1 r.2⟩

variable {I}

theorem system_step {w w' : World σ ι π} {l : ι × β} (h : I.system.step w l = some w') :
    ∃ s p, I.step l.1 w.shared (w.parties l.1) l.2 = some (s, p) ∧
      w' = ⟨s, Function.update w.parties l.1 p⟩ := by
  obtain ⟨r, hr, rfl⟩ := Option.map_eq_some_iff.mp h
  exact ⟨r.1, r.2, hr, rfl⟩

/-- The shared state and the position of one party after labels of its own. -/
def execParty (I : Interleaving σ ι π β) (i : ι) : σ → π → List β → Option (σ × π)
  | s, p, [] => some (s, p)
  | s, p, b :: bs => (I.step i s p b).bind fun r => I.execParty i r.1 r.2 bs

/-- The shared state satisfies `S`, and each party what its position knows of it. -/
structure Modular (S : σ → Prop) (J : ι → σ → π → Prop) (w : World σ ι π) : Prop where
  shared : S w.shared
  local_ : ∀ i, J i w.shared (w.parties i)

variable {S : σ → Prop} {J : ι → σ → π → Prop}

/-- **The thread-modular rule, one step**: the party that moves keeps the shared invariant and
establishes its own, and leaves what the others know. -/
theorem modular_step {w w' : World σ ι π} {l : ι × β} (h : I.system.step w l = some w')
    (own : ∀ s p, I.step l.1 w.shared (w.parties l.1) l.2 = some (s, p) → S s ∧ J l.1 s p)
    (others : ∀ s p i, I.step l.1 w.shared (w.parties l.1) l.2 = some (s, p) → i ≠ l.1 →
      J i s (w.parties i)) : Modular S J w' := by
  obtain ⟨s, p, hs, rfl⟩ := system_step h
  obtain ⟨hS, hJ⟩ := own s p hs
  refine ⟨hS, fun i => ?_⟩
  by_cases hi : i = l.1
  · subst hi
    simpa using hJ
  · simpa [hi] using others s p i hs hi

/-- **The thread-modular rule, a whole run.** -/
theorem modular_of_reachable {G : Guard (World σ ι π) (ι × β)} {w : World σ ι π}
    (h : I.system.Reachable G w) (start : ∀ s, I.start s → S s ∧ ∀ i, J i s I.idle)
    (step : ∀ w l, Modular S J w → G w l →
      ∀ s p, I.step l.1 w.shared (w.parties l.1) l.2 = some (s, p) →
        S s ∧ J l.1 s p ∧ ∀ i, i ≠ l.1 → J i s (w.parties i)) : Modular S J w := by
  refine h.induction (fun w hw => ?_) fun w l w' hw hg hs => ?_
  · obtain ⟨hS, hJ⟩ := start w.shared hw.1
    exact ⟨hS, fun i => hw.2 i ▸ hJ i⟩
  · exact modular_step hs (fun s p hsp => ⟨(step w l hw hg s p hsp).1,
      (step w l hw hg s p hsp).2.1⟩) fun s p i hsp hi => (step w l hw hg s p hsp).2.2 i hi

end Interleaving

end Transition
