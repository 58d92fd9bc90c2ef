import Mathlib.Data.List.Count

/-!
# Histories of events

A history has its last event first. A specification says which event a history allows next; a
history is legal when each of its events was allowed by those before it. A system that keeps the
history of its own events meets such a specification when its steps keep the history legal.

## Main definitions

* `Legal allowed l`: every event of `l` was allowed by the events before it

## Main results

* `Legal.at_event`: the specification holds at each event
* `Legal.count_le_one`: an event that is allowed only when it is new happens at most once
-/

namespace Transition

universe u

variable {ε : Type u} {allowed allowed' : List ε → ε → Prop} {l k : List ε} {e : ε}

/-- Every event was allowed by the events before it. -/
def Legal (allowed : List ε → ε → Prop) : List ε → Prop
  | [] => True
  | e :: l => allowed l e ∧ Legal allowed l

theorem Legal.cons (h : Legal allowed l) (he : allowed l e) : Legal allowed (e :: l) := ⟨he, h⟩

theorem Legal.mono (h : Legal allowed l) (himp : ∀ k e, allowed k e → allowed' k e) :
    Legal allowed' l := by
  induction l with
  | nil => trivial
  | cons e l ih => exact ⟨himp _ _ h.1, ih h.2⟩

theorem Legal.of_append (h : Legal allowed (k ++ l)) : Legal allowed l := by
  induction k with
  | nil => exact h
  | cons e k ih => exact ih h.2

/-- **The specification holds at each event** of a legal history. -/
theorem Legal.at_event (h : Legal allowed (k ++ e :: l)) : allowed l e := h.of_append.1

/-- **An event that is allowed only when it is new** happens at most once. -/
theorem Legal.count_le_one [BEq ε] [LawfulBEq ε] (h : Legal allowed l)
    (hnew : ∀ k, allowed k e → e ∉ k) : l.count e ≤ 1 := by
  induction l with
  | nil => exact Nat.zero_le _
  | cons x l ih =>
    by_cases hx : x = e
    · subst hx
      have hl : l.count x = 0 := List.count_eq_zero.mpr (hnew l h.1)
      simp [hl]
    · rw [List.count_cons_of_ne hx]
      exact ih h.2

theorem Legal.count_eq_one [BEq ε] [LawfulBEq ε] (h : Legal allowed l)
    (hnew : ∀ k, allowed k e → e ∉ k) (he : e ∈ l) : l.count e = 1 :=
  Nat.le_antisymm (h.count_le_one hnew) (List.count_pos_iff.mpr he)

end Transition
