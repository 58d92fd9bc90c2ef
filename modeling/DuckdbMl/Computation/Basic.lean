import Mathlib.Logic.Basic

/-!
# Computations that raise and have a state

A computation returns or raises, and leaves a state in both cases.

## Main definitions

* `Comp S E α`: a computation on states `S` that raises `E` or returns `α`
* `Comp.protect`: a computation with a cleanup on every exit
* `Triple P c Q`: from a state of `P` the computation ends in an outcome and a state of `Q`

## Main results

* `Triple.bind`, `Triple.catching`, `Triple.protect`: the rules of the combinators
-/

namespace Effects

/-- A computation that raises or returns. The state survives an exception. -/
def Comp (S E α : Type) := S → Except E α × S

variable {S E α β : Type}

namespace Comp

def ret (a : α) : Comp S E α := fun s => (.ok a, s)

def raise (e : E) : Comp S E α := fun s => (.error e, s)

def andThen (c : Comp S E α) (k : α → Comp S E β) : Comp S E β := fun s =>
  match c s with
  | (.ok a, t) => k a t
  | (.error e, t) => (.error e, t)

instance : Monad (Comp S E) where
  pure := ret
  bind := andThen

instance : LawfulMonad (Comp S E) :=
  LawfulMonad.mk' (Comp S E)
    (fun c => by
      funext s
      change andThen c (fun a => ret (id a)) s = c s
      rcases h : c s with ⟨_ | a, t⟩ <;> simp only [andThen, h, ret, id])
    (fun _ _ => rfl)
    (fun c k l => by
      funext s
      change andThen (andThen c k) l s = andThen c (fun a => andThen (k a) l) s
      rcases h : c s with ⟨_ | a, t⟩ <;> simp only [andThen, h])

theorem map_apply (g : α → β) (c : Comp S E α) (s : S) :
    (g <$> c) s = ((c s).1.map g, (c s).2) := by
  change andThen c (fun a => ret (g a)) s = _
  rcases h : c s with ⟨_ | a, t⟩ <;> simp only [andThen, h] <;> rfl

theorem bind_ok {c : Comp S E α} {k : α → Comp S E β} {s t : S} {a : α} (h : c s = (.ok a, t)) :
    (c >>= k) s = k a t := by
  change andThen c k s = _
  rw [andThen, h]

theorem bind_error {c : Comp S E α} {k : α → Comp S E β} {s t : S} {e : E}
    (h : c s = (.error e, t)) : (c >>= k) s = (.error e, t) := by
  change andThen c k s = _
  rw [andThen, h]

/-- A part that runs in some cases. -/
def when (condition : Bool) (c : Comp S E Unit) : Comp S E Unit := if condition then c else ret ()

def modify (f : S → S) : Comp S E Unit := fun s => (.ok (), f s)

def catching (c : Comp S E α) (handle : E → Comp S E α) : Comp S E α := fun s =>
  match c s with
  | (.ok a, t) => (.ok a, t)
  | (.error e, t) => handle e t

/-- `cleanup` runs on every exit, and is given the value returned. An exception of it hides that
value, and is paired by `both` with the exception raised. -/
def protect (both : E → E → E) (cleanup : Option α → Comp S E Unit) (c : Comp S E α) :
    Comp S E α := fun s =>
  match c s with
  | (.ok a, t) => (cleanup (some a)).andThen (fun _ => ret a) t
  | (.error e, t) =>
    match cleanup none t with
    | (.ok _, t) => (.error e, t)
    | (.error e', t) => (.error (both e e'), t)

/-- A cleanup that is given the value before or after a function of it. -/
theorem protect_map {both : E → E → E} {cleanup : Option α → Comp S E Unit}
    {cleanup' : Option β → Comp S E Unit} {g : α → β}
    (hsome : ∀ a, cleanup' (some (g a)) = cleanup (some a)) (hnone : cleanup' none = cleanup none)
    (c : Comp S E α) : protect both cleanup' (g <$> c) = g <$> protect both cleanup c := by
  funext s
  rw [map_apply]
  unfold protect
  rw [map_apply]
  rcases c s with ⟨e | a, t⟩
  · simp only [Except.map, hnone]
    rcases cleanup none t with ⟨_ | _, u⟩ <;> rfl
  · simp only [Except.map, andThen, hsome]
    rcases cleanup (some a) t with ⟨_ | _, u⟩ <;> rfl

end Comp

/-- From a state of `P` the computation ends in an outcome and a state of `Q`. -/
def Triple (P : S → Prop) (c : Comp S E α) (Q : Except E α → S → Prop) : Prop :=
  ∀ s, P s → Q (c s).1 (c s).2

namespace Triple

variable {c : Comp S E α} {P P' : S → Prop} {Q Q' : Except E α → S → Prop}

theorem conseq (h : Triple P' c Q) (hp : ∀ s, P s → P' s) (hq : ∀ r s, Q r s → Q' r s) :
    Triple P c Q' :=
  fun s hs => hq _ _ (h s (hp s hs))

theorem pure {a : α} (h : ∀ s, P s → Q (.ok a) s) : Triple P (Pure.pure a : Comp S E α) Q := h

theorem raise {e : E} (h : ∀ s, P s → Q (.error e) s) : Triple P (Comp.raise e) Q := h

theorem andThen {k : α → Comp S E β} {R : Except E β → S → Prop} (hc : Triple P c Q)
    (hraise : ∀ e s, Q (.error e) s → R (.error e) s)
    (hk : ∀ a, Triple (Q (.ok a)) (k a) R) : Triple P (Comp.andThen c k) R := by
  intro s hs
  have h := hc s hs
  unfold Comp.andThen
  split
  case h_1 a t ht =>
    rw [ht] at h
    exact hk a t h
  case h_2 e t ht =>
    rw [ht] at h
    exact hraise e t h

theorem bind {k : α → Comp S E β} {R : Except E β → S → Prop} (hc : Triple P c Q)
    (hraise : ∀ e s, Q (.error e) s → R (.error e) s)
    (hk : ∀ a, Triple (Q (.ok a)) (k a) R) : Triple P (c >>= k) R :=
  hc.andThen hraise hk

theorem catching {handle : E → Comp S E α} (hc : Triple P c Q')
    (hok : ∀ a s, Q' (.ok a) s → Q (.ok a) s)
    (hhandle : ∀ e, Triple (Q' (.error e)) (handle e) Q) :
    Triple P (Comp.catching c handle) Q := by
  intro s hs
  have h := hc s hs
  unfold Comp.catching
  split
  case h_1 a t ht =>
    rw [ht] at h
    exact hok a t h
  case h_2 e t ht =>
    rw [ht] at h
    exact hhandle e t h

/-- **A cleanup** keeps what holds after the work when no outcome of it undoes that. -/
theorem protect {both : E → E → E} {cleanup : Option α → Comp S E Unit} {I : S → Prop}
    (hc : Triple P c fun _ => I) (hcleanup : ∀ r, Triple I (cleanup r) fun _ => I) :
    Triple P (Comp.protect both cleanup c) fun _ => I := by
  intro s hs
  have h := hc s hs
  unfold Comp.protect
  split
  case h_1 a t ht =>
    rw [ht] at h
    have hret : Triple I ((cleanup (some a)).andThen fun _ => Comp.ret a) fun _ => I :=
      (hcleanup (some a)).andThen (fun _ _ h => h) fun _ _ h => h
    exact hret t h
  case h_2 e t ht =>
    rw [ht] at h
    have := hcleanup none t h
    split
    case h_1 u hu => rwa [hu] at this
    case h_2 e' u hu => rwa [hu] at this

end Triple

end Effects
