import Mathlib.Data.List.Basic

/-!
# Labelled transition systems and guarded runs

A system has start states and a partial step for each label. A run is a list of labels each of
which is enabled when its turn comes; a guard restricts the runs to those whose every step, in
the state it is taken in, meets a condition. Invariants and relations between the ends of a run
are proved once from what one step preserves.

## Main definitions

* `System`: start states and a partial, labelled step
* `System.Run G s as t`: a run from `s` to `t` with the labels `as`, each step within `G`
* `System.Reachable G t`: the states that such runs reach from a start state

## Main results

* `System.Reachable.induction`: what holds at the start and is kept by each step holds in every
  reachable state
* `System.Run.rel`: a reflexive and transitive relation kept by each step relates the ends of a
  run
* `System.exists_reachable_of_exec`, `System.exists_reachable_of_execWithin`: an executed list of
  labels reaches what it ends in
-/

namespace Transition

universe u v

/-- Start states, and for each label a partial step. -/
structure System (σ : Type u) (α : Type v) where
  start : σ → Prop
  step : σ → α → Option σ

/-- A condition on a step: the state it is taken in, and its label. -/
abbrev Guard (σ : Type u) (α : Type v) := σ → α → Prop

/-- The guard that admits every step. -/
def Guard.free {σ : Type u} {α : Type v} : Guard σ α := fun _ _ => True

namespace System

variable {σ : Type u} {α : Type v} (S : System σ α)

/-- The state after the labels `as`, when each of them is enabled and passes the check. -/
def execWithin (g : σ → α → Bool) : σ → List α → Option σ
  | s, [] => some s
  | s, a :: as => if g s a then (S.step s a).bind fun t => execWithin g t as else none

theorem execWithin_cons (g : σ → α → Bool) (s : σ) (a : α) (as : List α) :
    S.execWithin g s (a :: as) =
      if g s a then (S.step s a).bind fun t => S.execWithin g t as else none := rfl

/-- The state after the labels `as`, when each of them is enabled. -/
abbrev exec : σ → List α → Option σ := S.execWithin fun _ _ => true

theorem exec_cons (s : σ) (a : α) (as : List α) :
    S.exec s (a :: as) = (S.step s a).bind fun t => S.exec t as := if_pos rfl

/-- A run from `s` to `t` with the labels `as`, each of whose steps is within the guard. -/
def Run (G : Guard σ α) : σ → List α → σ → Prop
  | s, [], t => s = t
  | s, a :: as, t => G s a ∧ ∃ u, S.step s a = some u ∧ Run G u as t

/-- The states that runs within the guard reach from a start state. -/
def Reachable (G : Guard σ α) (t : σ) : Prop :=
  ∃ s as, S.start s ∧ S.Run G s as t

variable {S} {G H : Guard σ α}

@[simp] theorem run_nil {s t : σ} : S.Run G s [] t ↔ s = t := Iff.rfl

theorem run_cons {s t : σ} {a : α} {as : List α} :
    S.Run G s (a :: as) t ↔ G s a ∧ ∃ u, S.step s a = some u ∧ S.Run G u as t := Iff.rfl

theorem run_append {s t : σ} {as bs : List α} :
    S.Run G s (as ++ bs) t ↔ ∃ u, S.Run G s as u ∧ S.Run G u bs t := by
  induction as generalizing s with
  | nil => simp
  | cons a as ih =>
    simp only [List.cons_append, run_cons, ih]
    constructor
    · rintro ⟨hg, u, hu, w, hw, ht⟩
      exact ⟨w, ⟨hg, u, hu, hw⟩, ht⟩
    · rintro ⟨w, ⟨hg, u, hu, hw⟩, ht⟩
      exact ⟨hg, u, hu, w, hw, ht⟩

theorem run_snoc {s t : σ} {a : α} {as : List α} :
    S.Run G s (as ++ [a]) t ↔ ∃ u, S.Run G s as u ∧ G u a ∧ S.step u a = some t := by
  simp only [run_append, run_cons, run_nil]
  constructor
  · rintro ⟨u, hu, hg, w, hw, rfl⟩
    exact ⟨u, hu, hg, hw⟩
  · rintro ⟨u, hu, hg, hw⟩
    exact ⟨u, hu, hg, t, hw, rfl⟩

theorem Reachable.refl {s : σ} (hs : S.start s) : S.Reachable G s := ⟨s, [], hs, rfl⟩

theorem Reachable.tail {s t : σ} {a : α} (h : S.Reachable G s) (hg : G s a)
    (ht : S.step s a = some t) : S.Reachable G t := by
  obtain ⟨s₀, as, hs, hr⟩ := h
  exact ⟨s₀, as ++ [a], hs, run_snoc.mpr ⟨s, hr, hg, ht⟩⟩

/-- What each step keeps, a whole run keeps. -/
theorem Run.induction {I : σ → Prop}
    (hstep : ∀ s a t, I s → G s a → S.step s a = some t → I t)
    {s t : σ} {as : List α} (hr : S.Run G s as t) (hs : I s) : I t := by
  induction as generalizing s with
  | nil => exact hr ▸ hs
  | cons a as ih =>
    obtain ⟨hg, u, hu, ht⟩ := hr
    exact ih ht (hstep s a u hs hg hu)

/-- **The invariant rule**: what holds at the start and is kept by each step holds in every
reachable state. -/
theorem Reachable.induction {I : σ → Prop} (hstart : ∀ s, S.start s → I s)
    (hstep : ∀ s a t, I s → G s a → S.step s a = some t → I t)
    {t : σ} (h : S.Reachable G t) : I t := by
  obtain ⟨s, as, hs, hr⟩ := h
  exact hr.induction hstep (hstart s hs)

/-- A reflexive and transitive relation that each step from an `I`-state respects relates the
ends of a run. -/
theorem Run.rel {I : σ → Prop} {R : σ → σ → Prop} (hrefl : ∀ s, R s s)
    (htrans : ∀ s t u, R s t → R t u → R s u)
    (hinv : ∀ s a t, I s → G s a → S.step s a = some t → I t)
    (hstep : ∀ s a t, I s → G s a → S.step s a = some t → R s t)
    {s t : σ} {as : List α} (hr : S.Run G s as t) (hs : I s) : R s t := by
  induction as generalizing s with
  | nil => exact hr ▸ hrefl s
  | cons a as ih =>
    obtain ⟨hg, u, hu, ht⟩ := hr
    exact htrans s u t (hstep s a u hs hg hu) (ih ht (hinv s a u hs hg hu))

/-- A guard that follows from a check is within the run that `execWithin` takes. -/
theorem run_of_execWithin {g : σ → α → Bool} (hg : ∀ s a, g s a = true → G s a) {s t : σ}
    {as : List α} (h : S.execWithin g s as = some t) : S.Run G s as t := by
  induction as generalizing s with
  | nil => exact Option.some.inj h
  | cons a as ih =>
    rw [execWithin_cons] at h
    split at h
    case isTrue ha =>
      obtain ⟨u, hu, ht⟩ := Option.bind_eq_some_iff.mp h
      exact ⟨hg s a ha, u, hu, ih ht⟩
    case isFalse => cases h

/-- What a checked execution of labels ends in is reached within the guard. -/
theorem exists_reachable_of_execWithin {β : Type*} {f : σ → β} {g : σ → α → Bool}
    (hg : ∀ s a, g s a = true → G s a) {s : σ} {l : List α} {b : β} (hs : S.start s)
    (h : (S.execWithin g s l).map f = some b) : ∃ t, S.Reachable G t ∧ f t = b := by
  obtain ⟨t, ht, hb⟩ := Option.map_eq_some_iff.mp h
  exact ⟨t, ⟨s, l, hs, run_of_execWithin hg ht⟩, hb⟩

/-- What an executed list of labels ends in is reached. -/
theorem exists_reachable_of_exec {β : Type*} {f : σ → β} {s : σ} {l : List α} {b : β}
    (hs : S.start s) (h : (S.exec s l).map f = some b) :
    ∃ t, S.Reachable Guard.free t ∧ f t = b :=
  exists_reachable_of_execWithin (fun _ _ _ => trivial) hs h

end System

end Transition
