import DuckdbMl.Computation.Basic
import DuckdbMl.Failure.Basic

/-!
# Scopes

A scope runs work without effects, then its cleanup on every exit.

## Main definitions

* `Exn`, `Operation`: what the library's operations raise, and the operations
* `Lifting`: how the body of a scope reports errors
* `completeCleanup`, `withoutEscapingEffects`, `scope`

## Main results

* `triple_scope`: what the work establishes and the cleanup keeps holds after the scope
-/

namespace DuckdbMl

open Effects

/-- Exceptions: those of callbacks, those of the engine and the runtime, and those made of others.
-/
inductive Exn (E : Type)
  | raised (e : E)
  | sysBreak
  | effectDenied
  | both (e cleanup : Exn E)
  | cleanup (primary : Failure) (e : Exn E)

/-- A state under the innermost handler of effects. -/
structure Handled (S : Type) where
  denied : Bool
  inner : S

abbrev Operation (S E : Type) := Comp (Handled S) (Exn E)

variable {S E ε α : Type}

/-- How the body of a scope reports errors. -/
structure Lifting (ε : Type) where
  lift : Cause → ε
  flat : ε → Failure
  rollbackFailed : ε → Cause → ε

def Lifting.cause (context : Context) : Lifting Cause where
  lift := id
  flat error := ⟨context, error⟩
  rollbackFailed primary rollback := .rollbackFailed (context, primary) (.transaction, rollback)

def Lifting.failure (context : Context) : Lifting Failure where
  lift cause := ⟨context, cause⟩
  flat error := error
  rollbackFailed primary rollback :=
    ⟨primary.context,
      .rollbackFailed (primary.context, primary.cause) (.transaction, rollback)⟩

def within (context : Context) (r : Except Cause α) : Except Failure α := r.mapError (⟨context, ·⟩)

/-- A cleanup interrupted once is run again before the interruption is raised. -/
def completeCleanup (cleanup : Operation S E Unit) : Operation S E Unit :=
  Comp.catching cleanup fun
    | .sysBreak => do
      cleanup
      Comp.raise .sysBreak
    | e => Comp.raise e

/-- An effect that reaches this handler is denied, whatever the work makes of it. -/
def withoutEscapingEffects (work : Operation S E α) : Operation S E (Except Cause α) := fun s =>
  match work { s with denied := false } with
  | (.ok a, t) =>
    (.ok (if t.denied then .error .effectsNotAllowed else .ok a), { t with denied := s.denied })
  | (.error .effectDenied, t) => (.ok (.error .effectsNotAllowed), { t with denied := s.denied })
  | (.error e, t) => (.error e, { t with denied := s.denied })

/-- An exception of the cleanup is paired with the error it would otherwise hide. -/
def scope (l : Lifting ε) (work : Operation S E (Except ε α)) (cleanup : Operation S E Unit) :
    Operation S E (Except ε α) :=
  let body : Operation S E (Except ε α) := do
    let r ← withoutEscapingEffects work
    return match r with
      | .ok r => r
      | .error cause => .error (l.lift cause)
  Comp.protect .both
    (fun
      | some (.error error) =>
        Comp.catching (completeCleanup cleanup) fun e => Comp.raise (.cleanup (l.flat error) e)
      | _ => completeCleanup cleanup)
    body

section Outcome

variable {l : Lifting ε} {work : Operation S E (Except ε α)} {cleanup : Operation S E Unit}
  {s : Handled S}

/-- A scope leaves what the cleanup makes of what the work leaves. -/
theorem scope_snd : (scope l work cleanup s).2 =
    (completeCleanup cleanup (withoutEscapingEffects work s).2).2 := by
  have hcatching : ∀ (f : Exn E → Exn E) (t : Handled S),
      (Comp.catching (completeCleanup cleanup) (fun e => Comp.raise (f e)) t).2 =
        (completeCleanup cleanup t).2 := by
    intro f t
    unfold Comp.catching
    match completeCleanup cleanup t with
    | (.ok _, _) => rfl
    | (.error _, _) => rfl
  unfold scope Comp.protect
  match hw : withoutEscapingEffects work s with
  | (.error e, t) =>
    rw [Comp.bind_error hw]
    dsimp only
    match completeCleanup cleanup t with
    | (.ok _, _) => rfl
    | (.error _, _) => rfl
  | (.ok (.ok (.ok a)), t) =>
    rw [Comp.bind_ok hw]
    simp only [pure, Comp.ret, Comp.andThen]
    match completeCleanup cleanup t with
    | (.ok _, _) => rfl
    | (.error _, _) => rfl
  | (.ok (.ok (.error error)), t) =>
    rw [Comp.bind_ok hw]
    simp only [pure, Comp.ret, Comp.andThen]
    rw [← hcatching (.cleanup (l.flat error)) t]
    match Comp.catching (completeCleanup cleanup)
      (fun e => Comp.raise (.cleanup (l.flat error) e)) t with
    | (.ok _, _) => rfl
    | (.error _, _) => rfl
  | (.ok (.error cause), t) =>
    rw [Comp.bind_ok hw]
    simp only [pure, Comp.ret, Comp.andThen]
    rw [← hcatching (.cleanup (l.flat (l.lift cause))) t]
    match Comp.catching (completeCleanup cleanup)
      (fun e => Comp.raise (.cleanup (l.flat (l.lift cause)) e)) t with
    | (.ok _, _) => rfl
    | (.error _, _) => rfl

/-- A scope that returns returns what its work does. -/
theorem scope_fst {r : Except ε α} (h : (scope l work cleanup s).1 = .ok r) :
    (withoutEscapingEffects work s).1 = .ok (.ok r) ∨
      ∃ cause, (withoutEscapingEffects work s).1 = .ok (.error cause) ∧
        r = .error (l.lift cause) := by
  unfold scope Comp.protect at h
  match hw : withoutEscapingEffects work s with
  | (.error e, t) =>
    rw [Comp.bind_error hw] at h
    dsimp only at h
    split at h <;> cases h
  | (.ok (.ok r'), t) =>
    rw [Comp.bind_ok hw] at h
    simp only [pure, Comp.ret, Comp.andThen] at h
    split at h
    · cases h
      exact .inl rfl
    · cases h
  | (.ok (.error cause), t) =>
    rw [Comp.bind_ok hw] at h
    simp only [pure, Comp.ret, Comp.andThen] at h
    split at h
    · cases h
      exact .inr ⟨cause, rfl, rfl⟩
    · cases h

/-- Work that returns a value and a cleanup that returns. -/
theorem scope_of_ok {a : α} {t u : Handled S}
    (hw : withoutEscapingEffects work s = (.ok (.ok (.ok a)), t))
    (hc : completeCleanup cleanup t = (.ok (), u)) : scope l work cleanup s = (.ok (.ok a), u) := by
  unfold scope Comp.protect
  rw [Comp.bind_ok hw]
  simp only [pure, Comp.ret, Comp.andThen, hc]

theorem withoutEscapingEffects_inner (work : Operation S E α) (s : Handled S) :
    (withoutEscapingEffects work s).2.inner = (work { s with denied := false }).2.inner := by
  unfold withoutEscapingEffects
  match work { s with denied := false } with
  | (.ok _, t) => rfl
  | (.error .effectDenied, t) => rfl
  | (.error (.raised x), t) | (.error .sysBreak, t) | (.error (.both x y), t)
  | (.error (.cleanup x y), t) => rfl

/-- Work whose value is passed on through a function. -/
theorem withoutEscapingEffects_map {β : Type} (g : α → β) (work : Operation S E α) :
    withoutEscapingEffects (g <$> work) = Except.map g <$> withoutEscapingEffects work := by
  funext s
  rw [Comp.map_apply]
  unfold withoutEscapingEffects
  rw [Comp.map_apply]
  rcases work { s with denied := false } with ⟨e | a, t⟩
  · cases e <;> rfl
  · simp only [Except.map]
    cases t.denied <;> rfl

theorem withoutEscapingEffects_ok {work : Operation S E α} {a : α}
    (h : (withoutEscapingEffects work s).1 = .ok (.ok a)) :
    ∃ t, work { s with denied := false } = (.ok a, t) ∧ t.denied = false ∧
      withoutEscapingEffects work s = (.ok (.ok a), { t with denied := s.denied }) := by
  unfold withoutEscapingEffects at h ⊢
  match hw : work { s with denied := false } with
  | (.ok b, t) =>
    rw [hw] at h
    cases hd : t.denied with
    | true => simp [hd] at h
    | false =>
      simp only [hd, Bool.false_eq_true, if_false, Except.ok.injEq] at h
      subst h
      exact ⟨t, rfl, hd, by simp [hd]⟩
  | (.error .effectDenied, t) =>
    rw [hw] at h
    cases h
  | (.error (.raised x), t) | (.error .sysBreak, t) | (.error (.both x y), t)
  | (.error (.cleanup x y), t) =>
    rw [hw] at h
    cases h

end Outcome

/-- **A scope passes its value on**: a function that keeps the errors and gives them the scope's
context may be applied to the work or to the scope. -/
theorem scope_map {β : Type} {context : Context} {g : Except Cause α → Except Failure β}
    (herror : ∀ cause, g (.error cause) = .error ⟨context, cause⟩)
    (hok : ∀ a, ∃ b, g (.ok a) = .ok b) (work : Operation S E (Except Cause α))
    (cleanup : Operation S E Unit) :
    scope (.failure context) (g <$> work) cleanup = g <$> scope (.cause context) work cleanup := by
  unfold scope
  dsimp only
  refine (congrArg (Comp.protect Exn.both _) ?_).trans (Comp.protect_map (fun r => ?_) ?_ _)
  · rw [withoutEscapingEffects_map, map_bind, bind_map_left]
    congr 1
    funext r
    cases r with
    | ok r => rfl
    | error cause => exact congrArg pure (herror cause).symm
  · cases r with
    | error cause =>
      rw [herror]
      rfl
    | ok a =>
      obtain ⟨b, hb⟩ := hok a
      rw [hb]
  · rfl

theorem triple_completeCleanup {cleanup : Operation S E Unit} {I : Handled S → Prop}
    (h : Triple I cleanup fun _ => I) : Triple I (completeCleanup cleanup) fun _ => I :=
  h.catching (fun _ _ h => h) fun
    | .sysBreak => h.bind (fun _ _ h => h) fun _ => Triple.raise fun _ h => h
    | .raised _ | .effectDenied | .both _ _ | .cleanup _ _ => Triple.raise fun _ h => h

/-- **What holds after the work** holds after the scope, when the cleanup keeps it. -/
theorem triple_scope {l : Lifting ε} {work : Operation S E (Except ε α)}
    {cleanup : Operation S E Unit} {P I : S → Prop}
    (hw : Triple (P ·.inner) work fun _ t => I t.inner)
    (hc : Triple (I ·.inner) cleanup fun _ t => I t.inner) :
    Triple (P ·.inner) (scope l work cleanup) fun _ t => I t.inner := by
  have hwork : Triple (P ·.inner) (withoutEscapingEffects work) fun _ t => I t.inner := by
    intro s hs
    have h := hw { s with denied := false } hs
    unfold withoutEscapingEffects
    split
    case h_1 a t ht | h_2 t ht | h_3 e t ht => rwa [ht] at h
  have hcomplete := triple_completeCleanup (I := fun s => I s.inner) hc
  refine Triple.protect (I := fun s => I s.inner)
    (hwork.bind (fun _ _ h => h) fun _ => Triple.pure fun _ h => h) fun r => ?_
  split
  case h_1 error => exact hcomplete.catching (fun _ _ h => h) fun e => Triple.raise fun _ h => h
  case h_2 => exact hcomplete

end DuckdbMl
