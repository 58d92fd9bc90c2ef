import DuckdbMl.Failure.Scope

/-!
# Cleanups that are interrupted once

An interruption strikes before or after any action of a cleanup. It is an exception: the `finally`
blocks on its way out are run.

## Main definitions

* `Timed`: a state with the points that are left before the interruption
* `act`, `look`, `protect`: the parts of a cleanup
* `Runs c s o t`, `Meets c s t R`: a run without, and the runs with an interruption
* `Passes c s l o t`: the points that a run passes, in order

## Main results

* `Meets.protect`, `Meets.completeCleanup`: what an interruption leaves after the `finally` block,
  and after the second run
* `Passes.protect`, `Passes.completeCleanup`: the points of the combinators
-/

namespace DuckdbMl.Interruption

open Effects

/-- Whether the code at hand alone still knows of something that it has to release. -/
inductive Site
  | free
  | holding
  deriving DecidableEq, Repr

theorem Site.free_ne_holding : Site.free ≠ .holding := by decide

/-- `left` counts the points before the interruption, and `struck` is the point that it met. -/
structure Timed (S : Type) where
  left : Option ℕ
  struck : Option Site
  inner : S

abbrev Cleaning (S E : Type) := Operation (Timed S) E

variable {S E : Type}

/-- The interruption strikes when no point is left. -/
def point (site : Site) : Cleaning S E Unit := fun s =>
  match s.inner.left with
  | none => (.ok (), s)
  | some 0 =>
    (.error .sysBreak, { s with inner := { s.inner with left := none, struck := some site } })
  | some (n + 1) => (.ok (), { s with inner := { s.inner with left := some n } })

/-- An action, with a point before and one after it. -/
def act (before after : Site) (f : S → S) : Cleaning S E Unit := do
  point before
  Comp.modify fun s => { s with inner := { s.inner with inner := f s.inner.inner } }
  point after

/-- A cleanup that depends on the state. -/
def look (k : S → Cleaning S E Unit) : Cleaning S E Unit := fun s => k s.inner.inner s

def protect (finally_ body : Cleaning S E Unit) : Cleaning S E Unit :=
  Comp.protect .both (fun _ => finally_) body

def calm (s : S) : Handled (Timed S) := ⟨false, ⟨none, none, s⟩⟩

/-- The interruption strikes when `k` points have been passed. -/
def armed (k : ℕ) (s : S) : Handled (Timed S) := ⟨false, ⟨some k, none, s⟩⟩

/-! ### Runs without an interruption -/

/-- The run without an interruption, or after it. -/
def Runs (c : Cleaning S E Unit) (s : S) (o : Except (Exn E) Unit) (t : S) : Prop :=
  ∀ denied struck, c ⟨denied, ⟨none, struck, s⟩⟩ = (o, ⟨denied, ⟨none, struck, t⟩⟩)

namespace Runs

variable {c d : Cleaning S E Unit} {s t u : S} {o : Except (Exn E) Unit}

theorem pure (s : S) : Runs (Pure.pure () : Cleaning S E Unit) s (.ok ()) s := fun _ _ => rfl

theorem point (σ : Site) (s : S) : Runs (point σ : Cleaning S E Unit) s (.ok ()) s := fun _ _ => rfl

theorem act (before after : Site) (f : S → S) (s : S) :
    Runs (act before after f : Cleaning S E Unit) s (.ok ()) (f s) := fun _ _ => rfl

theorem look {k : S → Cleaning S E Unit} (h : Runs (k s) s o t) : Runs (look k) s o t := h

theorem bind (hc : Runs c s (.ok ()) t) (hd : Runs d t o u) : Runs (c >>= fun _ => d) s o u :=
  fun denied struck => (Comp.bind_ok (hc denied struck)).trans (hd denied struck)

theorem protect (hc : Runs c s o t) (hd : Runs d t (.ok ()) u) : Runs (protect d c) s o u := by
  intro denied struck
  simp only [Interruption.protect, Comp.protect, hc denied struck]
  cases o with
  | error e => simp only [hd denied struck]
  | ok a =>
    simp only [Comp.andThen, hd denied struck]
    rfl

theorem completeCleanup (hc : Runs c s (.ok ()) t) : Runs (completeCleanup c) s (.ok ()) t := by
  intro denied struck
  simp only [DuckdbMl.completeCleanup, Comp.catching, hc denied struck]

end Runs

/-! ### Runs with an interruption -/

/-- Without an interruption the cleanup ends in `t`; an interruption at a point `σ` leaves a state
of `R σ`. -/
structure Meets (c : Cleaning S E Unit) (s t : S) (R : Site → S → Prop) : Prop where
  full : Runs c s (.ok ()) t
  cut : ∀ denied k,
    (∃ j, c ⟨denied, ⟨some k, none, s⟩⟩ = (.ok (), ⟨denied, ⟨some j, none, t⟩⟩)) ∨
      ∃ σ u, c ⟨denied, ⟨some k, none, s⟩⟩ =
        (.error .sysBreak, ⟨denied, ⟨none, some σ, u⟩⟩) ∧ R σ u

namespace Meets

variable {c d : Cleaning S E Unit} {s t u : S} {R R' : Site → S → Prop}

theorem mono (h : Meets c s t R) (hR : ∀ σ v, R σ v → R' σ v) : Meets c s t R' where
  full := h.full
  cut denied k := (h.cut denied k).imp_right fun ⟨σ, u, hu, hr⟩ => ⟨σ, u, hu, hR σ u hr⟩

theorem pure (s : S) : Meets (Pure.pure () : Cleaning S E Unit) s s R where
  full := .pure s
  cut _ k := .inl ⟨k, rfl⟩

theorem point {σ : Site} (h : R σ s) : Meets (point σ : Cleaning S E Unit) s s R where
  full := .point σ s
  cut _ k := by
    cases k with
    | zero => exact .inr ⟨σ, s, rfl, h⟩
    | succ k => exact .inl ⟨k, rfl⟩

theorem modify (f : S → S) (s : S) :
    Meets (Comp.modify fun s : Handled (Timed S) =>
      { s with inner := { s.inner with inner := f s.inner.inner } } : Cleaning S E Unit)
      s (f s) R where
  full _ _ := rfl
  cut _ k := .inl ⟨k, rfl⟩

theorem bind (hc : Meets c s t R) (hd : Meets d t u R) : Meets (c >>= fun _ => d) s u R where
  full := hc.full.bind hd.full
  cut denied k := by
    rcases hc.cut denied k with ⟨j, hj⟩ | ⟨σ, v, hv, hr⟩
    · rw [Comp.bind_ok hj]
      exact hd.cut denied j
    · exact .inr ⟨σ, v, Comp.bind_error hv, hr⟩

theorem act {before after : Site} {f : S → S} (hbefore : R before s) (hafter : R after (f s)) :
    Meets (act before after f : Cleaning S E Unit) s (f s) R :=
  (point hbefore).bind ((modify f s).bind (point hafter))

theorem look {k : S → Cleaning S E Unit} (h : Meets (k s) s t R) : Meets (look k) s t R where
  full := h.full.look
  cut := h.cut

/-- **The `finally` block** is run on the way out of an interruption, and may meet it itself. -/
theorem protect {Rc : Site → S → Prop} (hc : Meets c s t Rc) (hd : Meets d t u R)
    (hcut : ∀ σ v, Rc σ v → ∃ w, Runs d v (.ok ()) w ∧ R σ w) : Meets (protect d c) s u R where
  full := hc.full.protect hd.full
  cut denied k := by
    rcases hc.cut denied k with ⟨j, hj⟩ | ⟨σ, v, hv, hr⟩
    · have hrun : Interruption.protect d c ⟨denied, ⟨some k, none, s⟩⟩ =
          (d.andThen fun _ => Comp.ret ()) ⟨denied, ⟨some j, none, t⟩⟩ := by
        simp only [Interruption.protect, Comp.protect, hj]
      rw [hrun]
      rcases hd.cut denied j with ⟨i, hi⟩ | ⟨σ, v, hv, hr⟩
      · refine .inl ⟨i, ?_⟩
        simp only [Comp.andThen, hi]
        rfl
      · refine .inr ⟨σ, v, ?_, hr⟩
        simp only [Comp.andThen, hv]
    · obtain ⟨w, hw, hr⟩ := hcut σ v hr
      refine .inr ⟨σ, w, ?_, hr⟩
      simp only [Interruption.protect, Comp.protect, hv, hw denied (some σ)]

/-- **The second run** starts from what the interruption has left. -/
theorem completeCleanup {Rc : Site → S → Prop} (hc : Meets c s t Rc)
    (hcut : ∀ σ v, Rc σ v → ∃ w, Runs c v (.ok ()) w ∧ R σ w) :
    Meets (completeCleanup c) s t R where
  full := hc.full.completeCleanup
  cut denied k := by
    rcases hc.cut denied k with ⟨j, hj⟩ | ⟨σ, v, hv, hr⟩
    · refine .inl ⟨j, ?_⟩
      simp only [DuckdbMl.completeCleanup, Comp.catching, hj]
    · obtain ⟨w, hw, hr⟩ := hcut σ v hr
      refine .inr ⟨σ, w, ?_, hr⟩
      simp only [DuckdbMl.completeCleanup, Comp.catching, hv, Comp.bind_ok (hw denied (some σ))]
      rfl

end Meets

/-- Without an interruption the cleanup fails in `t`; an interruption that is raised by itself
leaves a state of `R`. -/
structure Fails (c : Cleaning S E Unit) (s : S) (e : Exn E) (t : S) (R : S → Prop) : Prop where
  full : Runs c s (.error e) t
  cut : ∀ denied k,
    (∃ j, c ⟨denied, ⟨some k, none, s⟩⟩ = (.error e, ⟨denied, ⟨some j, none, t⟩⟩)) ∨
      ∃ σ u x, c ⟨denied, ⟨some k, none, s⟩⟩ = (.error x, ⟨denied, ⟨none, some σ, u⟩⟩) ∧
        (x = .sysBreak → R u)

namespace Fails

variable {c d : Cleaning S E Unit} {s t u : S} {e : Exn E} {R : S → Prop}

theorem raise (e : Exn E) (s : S) : Fails (Comp.raise e : Cleaning S E Unit) s e s R where
  full _ _ := rfl
  cut _ k := .inl ⟨k, rfl⟩

theorem bind (hc : Meets c s t fun _ => R) (hd : Fails d t e u R) :
    Fails (c >>= fun _ => d) s e u R where
  full := hc.full.bind hd.full
  cut denied k := by
    rcases hc.cut denied k with ⟨j, hj⟩ | ⟨σ, v, hv, hr⟩
    · rw [Comp.bind_ok hj]
      exact hd.cut denied j
    · exact .inr ⟨σ, v, .sysBreak, Comp.bind_error hv, fun _ => hr⟩

theorem look {k : S → Cleaning S E Unit} (h : Fails (k s) s e t R) : Fails (look k) s e t R where
  full := h.full.look
  cut := h.cut

/-- An interruption of the `finally` block is raised together with the failure. -/
theorem protect {g : S → S} (hc : Fails c s e t R) (hd : Meets d t (g t) fun _ => R)
    (hrun : ∀ v, Runs d v (.ok ()) (g v)) (hg : ∀ v, R v → R (g v)) :
    Fails (protect d c) s e (g t) R where
  full := hc.full.protect hd.full
  cut denied k := by
    rcases hc.cut denied k with ⟨j, hj⟩ | ⟨σ, v, x, hv, hr⟩
    · rcases hd.cut denied j with ⟨i, hi⟩ | ⟨σ, v, hv, -⟩
      · refine .inl ⟨i, ?_⟩
        simp only [Interruption.protect, Comp.protect, hj, hi]
      · refine .inr ⟨σ, v, .both e .sysBreak, ?_, nofun⟩
        simp only [Interruption.protect, Comp.protect, hj, hv]
    · refine .inr ⟨σ, g v, x, ?_, fun hx => hg v (hr hx)⟩
      simp only [Interruption.protect, Comp.protect, hv, hrun v denied (some σ)]

end Fails

/-! ### The points of a run -/

/-- The cleanup succeeds from every state. -/
def Total (c : Cleaning S E Unit) : Prop := ∀ v, ∃ w, Runs c v (.ok ()) w

/-- The points of a run are `l`, in order: an interruption after fewer points strikes at the next
one, and after them the run is over. -/
structure Passes (c : Cleaning S E Unit) (s : S) (l : List Site) (o : Except (Exn E) Unit) (t : S) :
    Prop where
  past : ∀ denied k, l.length ≤ k →
    c ⟨denied, ⟨some k, none, s⟩⟩ = (o, ⟨denied, ⟨some (k - l.length), none, t⟩⟩)
  struck : ∀ denied k, k < l.length →
    ∃ x u, c ⟨denied, ⟨some k, none, s⟩⟩ = (.error x, ⟨denied, ⟨none, l[k]?, u⟩⟩)

namespace Passes

variable {c d : Cleaning S E Unit} {s t u : S} {l m : List Site} {o : Except (Exn E) Unit}

theorem pure (s : S) : Passes (Pure.pure () : Cleaning S E Unit) s [] (.ok ()) s where
  past _ _ _ := rfl
  struck _ _ hk := absurd hk (Nat.not_lt_zero _)

theorem raise (e : Exn E) (s : S) : Passes (Comp.raise e : Cleaning S E Unit) s [] (.error e) s where
  past _ _ _ := rfl
  struck _ _ hk := absurd hk (Nat.not_lt_zero _)

theorem point (σ : Site) (s : S) :
    Passes (point σ : Cleaning S E Unit) s [σ] (.ok ()) s where
  past _ k hk := by
    obtain ⟨k, rfl⟩ := Nat.exists_eq_add_of_le' hk
    rfl
  struck _ k hk := by
    obtain rfl : k = 0 := Nat.lt_one_iff.mp hk
    exact ⟨.sysBreak, s, rfl⟩

theorem modify (f : S → S) (s : S) :
    Passes (Comp.modify fun s : Handled (Timed S) =>
      { s with inner := { s.inner with inner := f s.inner.inner } } : Cleaning S E Unit)
      s [] (.ok ()) (f s) where
  past _ _ _ := rfl
  struck _ _ hk := absurd hk (Nat.not_lt_zero _)

theorem bind (hc : Passes c s l (.ok ()) t) (hd : Passes d t m o u) :
    Passes (c >>= fun _ => d) s (l ++ m) o u where
  past denied k hk := by
    rw [List.length_append] at hk ⊢
    rw [Comp.bind_ok (hc.past denied k (by omega)), hd.past denied _ (by omega), Nat.sub_sub]
  struck denied k hk := by
    rw [List.length_append] at hk
    by_cases hl : k < l.length
    · obtain ⟨x, v, hv⟩ := hc.struck denied k hl
      exact ⟨x, v, by rw [Comp.bind_error hv, List.getElem?_append_left hl]⟩
    · have hl := Nat.not_lt.mp hl
      obtain ⟨x, v, hv⟩ := hd.struck denied (k - l.length) (by omega)
      exact ⟨x, v, by rw [Comp.bind_ok (hc.past denied k hl), hv, List.getElem?_append_right hl]⟩

theorem act (before after : Site) (f : S → S) (s : S) :
    Passes (act before after f : Cleaning S E Unit) s [before, after] (.ok ()) (f s) :=
  (point before s).bind ((modify f s).bind (point after _))

theorem look {k : S → Cleaning S E Unit} (h : Passes (k s) s l o t) : Passes (look k) s l o t where
  past := h.past
  struck := h.struck

/-- The points of the `finally` block come after those of the body. -/
theorem protect (hc : Passes c s l o t) (hd : Passes d t m (.ok ()) u) (htotal : Total d) :
    Passes (protect d c) s (l ++ m) o u where
  past denied k hk := by
    rw [List.length_append] at hk ⊢
    simp only [Interruption.protect, Comp.protect, hc.past denied k (by omega)]
    cases o with
    | error e => simp only [hd.past denied _ (show m.length ≤ k - l.length by omega), Nat.sub_sub]
    | ok a =>
      simp only [Comp.andThen, hd.past denied _ (show m.length ≤ k - l.length by omega),
        Nat.sub_sub]
      rfl
  struck denied k hk := by
    rw [List.length_append] at hk
    by_cases hl : k < l.length
    · obtain ⟨x, v, hv⟩ := hc.struck denied k hl
      obtain ⟨w, hw⟩ := htotal v
      refine ⟨x, w, ?_⟩
      simp only [Interruption.protect, Comp.protect, hv, hw denied l[k]?,
        List.getElem?_append_left hl]
    · have hl := Nat.not_lt.mp hl
      obtain ⟨x, v, hv⟩ := hd.struck denied (k - l.length) (by omega)
      cases o with
      | error e =>
        refine ⟨.both e x, v, ?_⟩
        simp only [Interruption.protect, Comp.protect, hc.past denied k hl, hv,
          List.getElem?_append_right hl]
      | ok a =>
        refine ⟨x, v, ?_⟩
        simp only [Interruption.protect, Comp.protect, hc.past denied k hl, Comp.andThen, hv,
          List.getElem?_append_right hl]

/-- The second run meets no interruption. -/
theorem completeCleanup (hc : Passes c s l (.ok ()) t) (htotal : Total c) :
    Passes (completeCleanup c) s l (.ok ()) t where
  past denied k hk := by
    simp only [DuckdbMl.completeCleanup, Comp.catching, hc.past denied k hk]
  struck denied k hk := by
    obtain ⟨x, v, hv⟩ := hc.struck denied k hk
    obtain ⟨w, hw⟩ := htotal v
    cases x with
    | sysBreak =>
      refine ⟨.sysBreak, w, ?_⟩
      simp only [DuckdbMl.completeCleanup, Comp.catching, hv, Comp.bind_ok (hw denied l[k]?)]
      rfl
    | _ => exact ⟨_, v, by simp only [DuckdbMl.completeCleanup, Comp.catching, hv]; rfl⟩

/-- A run that passes points ends where the run without an interruption ends. -/
theorem of_meets {R : Site → S → Prop} (hm : Meets c s t R) (hp : Passes c s l (.ok ()) u) :
    Passes c s l (.ok ()) t := by
  have hover := hp.past false l.length (Nat.le_refl _)
  have heq : u = t := by
    rcases hm.cut false l.length with ⟨j, hj⟩ | ⟨σ, v, hv, -⟩
    · rw [hover] at hj
      exact congrArg (fun r : Except (Exn E) Unit × Handled (Timed S) => r.2.inner.inner) hj
    · rw [hover] at hv
      cases hv
  exact heq ▸ hp

end Passes

/-- A run through `n` points at which nothing is held. -/
abbrev Strolls (c : Cleaning S E Unit) (s : S) (n : ℕ) (t : S) : Prop :=
  Passes c s (List.replicate n .free) (.ok ()) t

namespace Strolls

variable {c d : Cleaning S E Unit} {s t u : S} {n m : ℕ}

theorem bind (hc : Strolls c s n t) (hd : Strolls d t m u) :
    Strolls (c >>= fun _ => d) s (n + m) u := by
  rw [Strolls, ← List.replicate_append_replicate]
  exact Passes.bind hc hd

theorem protect (hc : Strolls c s n t) (hd : Strolls d t m u) (htotal : Total d) :
    Strolls (protect d c) s (n + m) u := by
  rw [Strolls, ← List.replicate_append_replicate]
  exact Passes.protect hc hd htotal

theorem act (f : S → S) (s : S) : Strolls (act .free .free f : Cleaning S E Unit) s 2 (f s) :=
  Passes.act ..

end Strolls

end DuckdbMl.Interruption
