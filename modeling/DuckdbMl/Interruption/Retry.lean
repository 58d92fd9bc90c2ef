import DuckdbMl.Interruption.Points

/-!
# Interrupted cleanups are retried

## Main definitions

* `Retried sysError c k s`: the cleanup `c` is made good when it is interrupted after `k` points

## Main results

* `retried_iff`: an interruption is made good unless it strikes at an exposed point, or before a
  file is removed that cannot be removed
-/

namespace DuckdbMl.Interruption

open Effects

variable {E : Type} {s t : Owner}

/-! ### Temporary files -/

/-- What the removal of a temporary file leaves. -/
def removed (s : Owner) : Owner := (s.onRequest (Request.admitted s.facade)).dropFile

theorem runs_removeFile (sysError : E) (h : s.file = true → s.removable = true) :
    Runs (removeFile sysError) s (.ok ()) s.dropFile := by
  have hn : ¬ (s.file && !s.removable) = true := by
    rw [Bool.and_eq_true, Bool.not_eq_true']
    exact fun hf => Bool.false_ne_true (hf.2.symm.trans (h hf.1))
  refine .look ?_
  rw [if_neg hn]
  exact .act _ _ _ _

theorem runs_removeTemporary (sysError : E) (h : s.file = true → s.removable = true) :
    Runs (removeTemporary sysError) s (.ok ()) (removed s) :=
  (Runs.look (runs_admitCleanup _ _)).bind ((Runs.act _ _ _ _).bind
    ((runs_removeFile (s := (s.onRequest (Request.admitted s.facade)).openWork) sysError
      h).protect (.act _ _ _ _)))

/-- An interruption leaves the shell of the work behind, or what is removed as before. -/
structure Removing (s : Owner) (σ : Site) (t : Owner) : Prop where
  removable : t.file = true → t.removable = true
  kept : removed t = removed s ↔ σ ≠ .holding

theorem Removing.free (hr : t.file = true → t.removable = true) (he : removed t = removed s) :
    Removing s .free t := ⟨hr, iff_of_true he Site.free_ne_holding⟩

theorem Removing.holding (hr : t.file = true → t.removable = true)
    (hworks : t.works = s.works + 1) : Removing s .holding t := by
  refine ⟨hr, iff_of_false (fun he => ?_) (absurd rfl ·)⟩
  have hw : (removed t).works = (removed s).works := congrArg Owner.works he
  have hw : t.works = s.works := hw
  omega

/-- **An interrupted removal** is retried, but it may leave the shell of its work. -/
theorem meets_removeTemporary (sysError : E) (h : s.file = true → s.removable = true) :
    Meets (removeTemporary sysError) s (removed s) (Removing s) := by
  -- the admission of the cleanup changes only the request
  have hjoin : ∀ f : Request → Request, (f s.request).admitted s.facade =
      s.request.admitted s.facade → removed (s.onRequest f) = removed s := by
    intro f hf
    rw [removed, removed, Owner.onRequest, Owner.onRequest, Owner.onRequest]
    exact Owner.ext rfl rfl rfl rfl rfl rfl rfl rfl rfl hf rfl rfl rfl rfl rfl rfl rfl rfl rfl rfl
  have hadmission : Meets (look fun s => admitCleanup s.facade : Cleaning Owner E Unit) s
      (s.onRequest (Request.admitted s.facade)) (Removing s) :=
    .look (meets_admitCleanup (.free h rfl) fun hc =>
      ⟨.free h (hjoin _ (Request.admitted_stopController hc)),
        .free h (hjoin _ (Request.admitted_joined hc))⟩)
  have hv : removed (s.onRequest (Request.admitted s.facade)) = removed s :=
    hjoin _ (Request.admitted_admitted _ _)
  refine hadmission.bind ?_
  generalize hadmitted : s.onRequest (Request.admitted s.facade) = v at hv
  have hr : v.file = true → v.removable = true := hadmitted ▸ h
  have hworks : v.works = s.works := hadmitted ▸ rfl
  have hdrop : v.dropFile.file = true → v.dropFile.removable = true :=
    (absurd · Bool.false_ne_true)
  -- while the work is open its shell is held by this run alone
  have hopen : Removing s .holding v.openWork := .holding hr (congrArg (· + 1) hworks)
  have hopen' : Removing s .holding v.openWork.dropFile := .holding hdrop (congrArg (· + 1) hworks)
  -- the file can be removed, so that the body does not raise
  have hbody : Meets (removeFile sysError) v.openWork v.openWork.dropFile
      (fun σ t => Removing s σ t.finishWork) := by
    refine .look ?_
    have hn : ¬ (v.openWork.file && !v.openWork.removable) = true := by
      rw [Bool.and_eq_true, Bool.not_eq_true']
      exact fun hf => Bool.false_ne_true (hf.2.symm.trans (hr hf.1))
    rw [if_neg hn]
    exact .act (.free hr hv) (.free hdrop hv)
  have hend : removed s = v.openWork.dropFile.finishWork := by
    rw [removed, hadmitted]
    rfl
  rw [hend]
  exact (Meets.act (.free hr hv) hopen).bind (hbody.protect (.act hopen' (.free hdrop hv))
    fun σ u hu => ⟨u.finishWork, .act _ _ _ _, hu⟩)

/-- A file that cannot be removed. -/
def Owner.Stuck (s : Owner) : Prop := s.file = true ∧ s.removable = false

theorem fails_removeTemporary (sysError : E) (h : s.Stuck) :
    Fails (removeTemporary sysError) s (.raised sysError)
      (s.onRequest (Request.admitted s.facade)) Owner.Stuck := by
  have hadmission : Meets (look fun s => admitCleanup s.facade : Cleaning Owner E Unit) s
      (s.onRequest (Request.admitted s.facade)) (fun _ => Owner.Stuck) :=
    .look (meets_admitCleanup h fun _ => ⟨h, h⟩)
  have hstuck : (s.onRequest (Request.admitted s.facade)).Stuck := h
  generalize s.onRequest (Request.admitted s.facade) = v at hadmission hstuck
  have hopen : v.openWork.Stuck := hstuck
  have hbody : Fails (removeFile sysError) v.openWork (.raised sysError) v.openWork
      Owner.Stuck := by
    have hf : (v.openWork.file && !v.openWork.removable) = true := by
      rw [hopen.1, hopen.2]
      rfl
    refine .look ?_
    rw [if_pos hf]
    exact Fails.bind (Meets.point hopen) (.raise _ _)
  exact .bind hadmission (.bind (.act hstuck hopen)
    (hbody.protect (.act hopen hstuck) (fun u => .act _ _ _ u) fun _ hu => hu))

/-! ### What a cleanup releases -/

/-- A native shell is gone, and what it had has been released once. -/
structure Native.Released (n n' : Native) : Prop where
  slot : n'.slot = false
  frees : n'.frees = n.frees + n.slot.toNat
  releases : n'.releases = n.releases + (n.slot && n.engine).toNat
  resultReleases : n'.resultReleases = n.resultReleases + (n.slot && n.result).toNat

theorem Native.released_finish (n : Native) : n.Released n.finish := by
  rcases n with ⟨_ | _, _ | _, _ | _, _, _, _⟩ <;> exact ⟨rfl, rfl, rfl, rfl⟩

/-- The child whose shell alone a cleanup may touch. -/
def Owner.Others (i : ℕ) (s t : Owner) : Prop :=
  ∀ j ≠ i, (t.children j).native = (s.children j).native

/-- Every native handle of the cleanup has been released once, and no other one. -/
def Cleanup.Released (s t : Owner) : Cleanup → Prop
  | .prepared i | .appender i =>
    (s.children i).native.Released (t.children i).native ∧ s.Others i t
  | .result i =>
    (t.children i).native.resultReleases = (s.children i).native.resultReleases +
      ((s.children i).native.slot && (s.children i).native.result).toNat ∧ s.Others i t
  | .connection =>
    (∀ i, (s.children i).native.Released (t.children i).native) ∧ s.native.Released t.native ∧
      t.nativeRequest.slot = false ∧
        t.nativeRequest.frees = s.nativeRequest.frees + s.nativeRequest.slot.toNat
  | .transaction => ∀ i,
    if i ∈ s.ofTransaction then (s.children i).native.Released (t.children i).native
    else (t.children i).native = (s.children i).native
  | .temporary => t.works = s.works ∧ ∀ i, (t.children i).native = (s.children i).native

theorem native_shut (c : Child) : c.shut.native = c.native.finish := by
  rcases c with ⟨_ | _, _, _, _, n, _, _, _⟩ <;> rfl

theorem others_update (i : ℕ) (f : Child → Child) (s : Owner) : s.Others i (s.update i f) :=
  fun _ hj => congrArg Child.native (Owner.children_update_of_ne hj f s)

theorem native_cleanedBy (close : Child → Child) (i : ℕ) (s : Owner) :
    ((cleanedBy close i s).children i).native = (close (s.children i)).native := by
  rw [children_cleanedBy, Function.update_self]

theorem native_closeEach (l : List ℕ) (s : Owner) (i : ℕ) :
    ((closeEach l s).children i).native =
      if i ∈ l then (s.children i).native.finish else (s.children i).native := by
  induction l generalizing s with
  | nil => rfl
  | cons j rest ih =>
    rw [closeEach, ih, children_closeOne]
    by_cases hi : i = j
    · subst hi
      rw [Function.update_self, native_shut, Native.finish_finish, ite_self,
        if_pos List.mem_cons_self]
    · rw [Function.update_of_ne hi]
      simp only [List.mem_cons, hi, false_or]

/-- What the destruction of children leaves alone. -/
theorem frame_closeEach (l : List ℕ) (s : Owner) : (closeEach l s).begun = s.begun ∧
    (closeEach l s).native = s.native ∧ (closeEach l s).fault = s.fault := by
  induction l generalizing s with
  | nil => exact ⟨rfl, rfl, rfl⟩
  | cons i rest ih =>
    rw [closeEach]
    have hone : (closeOne i s).begun = s.begun ∧ (closeOne i s).native = s.native ∧
        (closeOne i s).fault = s.fault := by
      rw [closeOne, cleaned_eq]
      exact ⟨rfl, rfl, rfl⟩
    exact ⟨(ih _).1.trans hone.1, (ih _).2.1.trans hone.2.1, (ih _).2.2.trans hone.2.2⟩

theorem released_gone (s : Owner) : Cleanup.connection.Released s (gone s) := by
  refine ⟨fun i => ?_, Native.released_finish _, NativeRequest.slot_retired _, ?_⟩
  · change (s.children i).native.Released (s.children i).shut.native
    rw [native_shut]
    exact Native.released_finish _
  · change s.nativeRequest.retired.frees = _
    rcases s.nativeRequest with ⟨_ | _, _ | _, _⟩ <;> rfl

theorem released_rolledBack (s : Owner) : Cleanup.transaction.Released s (rolledBack s) := by
  intro i
  have hn : ((rolledBack s).children i).native =
      if i ∈ s.ofTransaction then (s.children i).native.finish else (s.children i).native := by
    have he : ((rolledBack s).children i).native = ((drained s).children i).native := by
      rw [rolledBack, ended]
      split <;> rfl
    rw [he]
    exact native_closeEach _ _ i
  rw [hn]
  by_cases hi : i ∈ s.ofTransaction
  · rw [if_pos hi, if_pos hi]
    exact Native.released_finish _
  · rw [if_neg hi, if_neg hi]

/-- A rollback reads the connection, whose shell is there. -/
theorem fault_rolledBack (h : s.begun = true → s.native.slot = true) :
    (rolledBack s).fault = s.fault := by
  obtain ⟨hbegun, hnative, hfault⟩ := frame_closeEach (revoked s).ofTransaction (revoked s)
  rw [rolledBack, ended]
  cases hb : (drained s).begun with
  | false => exact hfault
  | true =>
    have hslot : (drained s).native.slot = true := by
      rw [drained, hnative]
      exact h (hbegun.symm.trans hb)
    change ((drained s).fault || !(drained s).native.slot) = s.fault
    rw [hslot, Bool.not_true, Bool.or_false]
    exact hfault

/-! ### The second run -/

section Retried

variable (sysError : E)

/-- The site at which the interruption strikes the first run. -/
def site (c : Cleanup) (k : ℕ) (s : Owner) : Option Site :=
  (c.run sysError (armed k s)).2.inner.struck

def interrupted (c : Cleanup) (k : ℕ) (s : Owner) :
    Except (Exn E) Unit × Handled (Timed Owner) :=
  completeCleanup (c.run sysError) (armed k s)

def uninterrupted (c : Cleanup) (s : Owner) : Except (Exn E) Unit × Handled (Timed Owner) :=
  completeCleanup (c.run sysError) (calm s)

/-- **The interruption is made good**: the state is that of an uninterrupted run, everything has
been released once, nothing is used after it was freed, and the interruption, when it has struck, is
raised again. -/
structure Retried (c : Cleanup) (k : ℕ) (s : Owner) : Prop where
  state : (interrupted sysError c k s).2.inner.inner = (uninterrupted sysError c s).2.inner.inner
  released : c.Released s (interrupted sysError c k s).2.inner.inner
  fault : (interrupted sysError c k s).2.inner.inner.fault = s.fault
  raised : (interrupted sysError c k s).2.inner.left = none →
    (interrupted sysError c k s).1 = .error .sysBreak

/-- What holds of a connection between operations: what is not closed is known to it, and a
transaction that has begun is one of an open connection. -/
structure WellFormed (s : Owner) : Prop where
  tracked : Tracked s
  begun : s.begun = true → s.native.slot = true

variable {sysError} {c : Cleanup} {k : ℕ} {R : Site → Owner → Prop}

theorem retried_of_meets (hmeets : Meets (c.run sysError) s t R)
    (hsecond : ∀ σ v, R σ v → ∃ w, Runs (c.run sysError) v (.ok ()) w ∧ (w = t ↔ σ ≠ .holding))
    (hreleased : c.Released s t) (hfault : t.fault = s.fault) :
    Retried sysError c k s ↔ site sysError c k s ≠ some .holding := by
  have hcalm : uninterrupted sysError c s = (.ok (), ⟨false, ⟨none, none, t⟩⟩) :=
    hmeets.full.completeCleanup false none
  -- either the cleanup ends before point `k`, or it is interrupted there at a site
  rcases hmeets.cut false k with ⟨j, hj⟩ | ⟨σ, v, hv, hr⟩
  · have hsite : site sysError c k s = none := by rw [site, armed, hj]
    have hrun : interrupted sysError c k s = (.ok (), ⟨false, ⟨some j, none, t⟩⟩) := by
      simp only [interrupted, DuckdbMl.completeCleanup, Comp.catching, armed, hj]
    refine iff_of_true ⟨?_, ?_, ?_, fun hnone => ?_⟩ (hsite ▸ (Option.some_ne_none _).symm)
    · rw [hrun, hcalm]
    · rw [hrun]
      exact hreleased
    · rw [hrun]
      exact hfault
    · rw [hrun] at hnone
      cases hnone
  · obtain ⟨w, hw, hiff⟩ := hsecond σ v hr
    have hsite : site sysError c k s = some σ := by rw [site, armed, hv]
    have hrun : interrupted sysError c k s = (.error .sysBreak, ⟨false, ⟨none, some σ, w⟩⟩) := by
      simp only [interrupted, DuckdbMl.completeCleanup, Comp.catching, armed, hv,
        Comp.bind_ok (hw false (some σ))]
      rfl
    -- the second run ends as an uninterrupted one exactly when nothing was being handed over
    have hholding : (some σ ≠ some Site.holding) ↔ w = t :=
      (not_congr (Option.some.injEq _ _).to_iff).trans hiff.symm
    rw [hsite, hholding]
    constructor
    · intro h
      have hstate := h.state
      rw [hrun, hcalm] at hstate
      exact hstate
    · rintro rfl
      refine ⟨?_, ?_, ?_, fun _ => ?_⟩
      · rw [hrun, hcalm]
      · rw [hrun]
        exact hreleased
      · rw [hrun]
        exact hfault
      · rw [hrun]

/-- The failure of the second run is raised instead of the interruption. -/
theorem retried_of_stuck (h : s.Stuck) :
    Retried sysError .temporary k s ↔ site sysError .temporary k s = none := by
  have hfails := fails_removeTemporary sysError h
  have hcalm : uninterrupted sysError .temporary s = (.error (.raised sysError),
      ⟨false, ⟨none, none, s.onRequest (Request.admitted s.facade)⟩⟩) := by
    have hfull := hfails.full false none
    simp only [uninterrupted, DuckdbMl.completeCleanup, Comp.catching, calm, Cleanup.run, hfull]
    rfl
  rcases hfails.cut false k with ⟨j, hj⟩ | ⟨σ, v, x, hv, hr⟩
  · have hsite : site sysError .temporary k s = none := by rw [site, armed, Cleanup.run, hj]
    have hrun : interrupted sysError .temporary k s = (.error (.raised sysError),
        ⟨false, ⟨some j, none, s.onRequest (Request.admitted s.facade)⟩⟩) := by
      simp only [interrupted, DuckdbMl.completeCleanup, Comp.catching, armed, Cleanup.run, hj]
      rfl
    refine iff_of_true ⟨?_, ?_, ?_, fun hnone => ?_⟩ hsite
    · rw [hrun, hcalm]
    · rw [hrun]
      exact ⟨rfl, fun _ => rfl⟩
    · rw [hrun]
      rfl
    · rw [hrun] at hnone
      cases hnone
  · have hsite : site sysError .temporary k s = some σ := by rw [site, armed, Cleanup.run, hv]
    -- the second run fails as well, and that is raised
    have hrun : (interrupted sysError .temporary k s).1 ≠ .error .sysBreak ∧
        (interrupted sysError .temporary k s).2.inner.left = none := by
      simp only [interrupted, DuckdbMl.completeCleanup, Comp.catching, armed, Cleanup.run, hv]
      cases x with
      | sysBreak =>
        have hagain := (fails_removeTemporary sysError (hr rfl)).full false (some σ)
        simp only [Comp.bind_error hagain]
        exact ⟨by simp, trivial⟩
      | raised e => exact ⟨by simp [Comp.raise], rfl⟩
      | effectDenied => exact ⟨by simp [Comp.raise], rfl⟩
      | both e e' => exact ⟨by simp [Comp.raise], rfl⟩
      | cleanup f e => exact ⟨by simp [Comp.raise], rfl⟩
    have hne : site sysError .temporary k s ≠ none := hsite ▸ Option.some_ne_none _
    exact iff_of_false (fun hretried => hrun.1 (hretried.raised hrun.2)) hne

end Retried

section Exposed

variable {sysError : E} {c : Cleanup} {k : ℕ}

theorem site_of_passes {l : List Site} {o : Except (Exn E) Unit}
    (hp : Passes (c.run sysError) s l o t) (k : ℕ) : site sysError c k s = l[k]? := by
  rcases Nat.lt_or_ge k l.length with hk | hk
  · obtain ⟨x, u, hu⟩ := hp.struck false k hk
    rw [site, armed, hu]
  · rw [site, armed, hp.past false k hk, List.getElem?_eq_none hk]

/-- A cleanup that is made good wherever it holds nothing. -/
theorem retried_of_sites {l : List Bool} {m : ℕ} {o : Except (Exn E) Unit}
    (hp : Passes (c.run sysError) s (l.map Site.of ++ List.replicate m .free) o t)
    (h : Retried sysError c k s ↔ site sysError c k s ≠ some .holding) :
    Retried sysError c k s ↔ l[k]? ≠ some true := by
  rw [h, site_of_passes hp, Ne, getElem?_sites]

/-- A cleanup that reaches the same state from wherever it was interrupted is always made good. -/
theorem retried_of_kept {F : Owner → Owner} (hmeets : Meets (c.run sysError) s (F s) (Kept F s))
    (hruns : ∀ v, Runs (c.run sysError) v (.ok ()) (F v)) (hreleased : c.Released s (F s))
    (hfault : (F s).fault = s.fault) : Retried sysError c k s := by
  refine (retried_of_meets hmeets (fun _ v hv => ⟨F v, hruns v, iff_of_true hv.2
    (hv.1 ▸ Site.free_ne_holding)⟩) hreleased hfault).mpr fun hsite => ?_
  rcases hmeets.cut false k with ⟨j, hj⟩ | ⟨σ, v, hv, hr⟩
  · rw [site, armed, hj] at hsite
    cases hsite
  · rw [site, armed, hv, hr.1] at hsite
    cases hsite

end Exposed

/-- **An interruption is made good** exactly when it does not strike at a point at which the cleanup
alone knows of something to release, and does not strike the removal of a file that cannot be
removed. -/
theorem retried_iff (sysError : E) (c : Cleanup) (k : ℕ) (s : Owner) (h : WellFormed s) :
    Retried sysError c k s ↔ (c.exposure s)[k]? ≠ some true ∧
      (c = .temporary → k < s.request.admitPoints s.facade + 5 →
        s.file = true → s.removable = true) := by
  have halways : c ≠ .temporary → c.exposure s = [] → Retried sysError c k s →
      (Retried sysError c k s ↔ (c.exposure s)[k]? ≠ some true ∧
        (c = .temporary → k < s.request.admitPoints s.facade + 5 →
          s.file = true → s.removable = true)) := by
    intro hc he hr
    have hnone : (c.exposure s)[k]? ≠ some true := by simp [he]
    exact iff_of_true hr ⟨hnone, fun h => absurd h hc⟩
  cases c with
  | prepared i =>
    refine halways (by simp) rfl (retried_of_kept (meets_cleanupPrepared i s)
      (fun v => (meets_cleanupPrepared i v).full) ⟨?_, others_update i _ _⟩ rfl)
    rw [native_cleanedBy]
    exact Native.released_finish _
  | result i =>
    refine halways (by simp) rfl (retried_of_kept (meets_destroyResult i s)
      (fun v => (meets_destroyResult i v).full) ⟨?_, others_update i _ _⟩ rfl)
    rw [native_cleanedBy]
    change (s.children i).native.clearResult.resultReleases = _
    rcases (s.children i).native with ⟨_ | _, _, _ | _, _, _, _⟩ <;> rfl
  | appender i =>
    refine halways (by simp) rfl (retried_of_kept (meets_cleanupAppender i s)
      (fun v => (meets_cleanupAppender i v).full) ⟨?_, others_update i _ _⟩ rfl)
    rw [cleanedAppender, native_cleanedBy]
    exact Native.released_finish _
  | connection =>
    obtain ⟨m, t, hp⟩ := passes_destroyConnection (E := E) h.tracked
    have hsite : Retried sysError .connection k s ↔ site sysError .connection k s ≠ some .holding :=
      retried_of_meets (meets_destroyConnection h.tracked)
        (fun σ v hv => ⟨destroyed v, runs_destroyConnection v, destroyed_of_left hv⟩)
        (released_gone s) rfl
    exact (retried_of_sites (c := .connection) hp hsite).trans (and_iff_left fun h => by cases h).symm
  | transaction =>
    exact halways (by simp) rfl (retried_of_kept (meets_rollback h.tracked.nodup.1)
      runs_rollback (released_rolledBack s) (fault_rolledBack h.begun))
  | temporary =>
    cases hstuck : s.file && !s.removable with
    | false =>
      have hr : s.file = true → s.removable = true := fun hf => by simpa [hf] using hstuck
      obtain ⟨t, hp⟩ := passes_removeTemporary sysError hstuck
      have hsite : Retried sysError .temporary k s ↔ site sysError .temporary k s ≠ some .holding :=
        retried_of_meets (t := removed s) (meets_removeTemporary sysError hr)
          (fun σ v hv => ⟨removed v, runs_removeTemporary sysError hv.removable, hv.kept⟩)
          ⟨rfl, fun _ => rfl⟩ rfl
      exact (retried_of_sites (c := .temporary) hp hsite).trans (and_iff_left fun _ _ => hr).symm
    | true =>
      have hs : s.Stuck := by simpa [Owner.Stuck] using hstuck
      obtain ⟨l, t, hl, hp⟩ := passes_stuck sysError hstuck
      -- the second removal fails too, and that is raised instead of the interruption
      rw [retried_of_stuck hs, site_of_passes (c := .temporary) hp, List.getElem?_eq_none_iff, hl]
      refine ⟨fun hk => ⟨?_, fun _ hlt => absurd hlt (Nat.not_lt.mpr hk)⟩, fun hr => ?_⟩
      · have hlength : (Cleanup.temporary.exposure s).length =
            s.request.admitPoints s.facade + 5 := by
          simp [Cleanup.exposure, Owner.fileExposure]
        rw [List.getElem?_eq_none (hlength ▸ hk)]
        exact (Option.some_ne_none true).symm
      · by_contra hk
        have := hr.2 rfl (Nat.lt_of_not_le hk) hs.1
        rw [hs.2] at this
        cases this

/-- A connection with one statement in its cache. -/
def oneCached : Owner where
  children i := ⟨false, false, false, if i = 0 then .opened else .closed,
    ⟨i = 0, i = 0, false, 0, 0, 0⟩, false, false, none⟩
  prepared := []
  cached := [0]
  resultOwner := none
  status := .closing
  busy := true
  registered := true
  native := ⟨true, true, false, 0, 0, 0⟩
  leased := false
  request := ⟨false, false, false, false⟩
  nativeRequest := ⟨false, false, 0⟩
  facade := false
  active := false
  failure := none
  begun := false
  engineTransaction := false
  file := false
  removable := true
  works := 0
  fault := false

theorem wellFormed_oneCached : WellFormed oneCached where
  tracked :=
    { nodup := by decide
      child := fun i => by
        by_cases hi : i = 0
        · exact .inl (.inr (by simp [hi, oneCached]))
        · refine .inr ?_
          simp [oneCached, hi, Child.shut, Child.closePrepared, Child.mark, Native.finish]
      resultOwner := nofun
      facade := nofun
      cached := by decide
      request := nofun
      live := nofun
      installed := nofun }
  begun := nofun

/-- The statement is lost between the point after the cache has been emptied and its own cleanup,
which has ten points and is retried, and again before it is marked closed. -/
theorem retried_iff_oneCached : Retried () .connection 0 oneCached ∧
    ¬ Retried () .connection 1 oneCached ∧ Retried () .connection 2 oneCached ∧
      ¬ Retried () .connection 12 oneCached := by
  have hiff : ∀ k, Retried () .connection k oneCached ↔ _ := fun k =>
    retried_iff () .connection k oneCached wellFormed_oneCached
  rw [hiff, hiff, hiff, hiff]
  decide

/-- An interruption after the cache has been emptied leaves its statement open for good. -/
theorem not_retried_oneCached : WellFormed oneCached ∧ ¬ Retried () .connection 1 oneCached := by
  refine ⟨wellFormed_oneCached, fun h => ?_⟩
  have hclosed := congrArg (fun o : Owner => (o.children 0).native.frees) h.state
  exact absurd hclosed (by decide)

end DuckdbMl.Interruption
