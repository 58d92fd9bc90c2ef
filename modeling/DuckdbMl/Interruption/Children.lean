import DuckdbMl.Interruption.Owner

/-!
# The cleanups of children can be retried

## Main definitions

* `Kept F s`: the states after an interruption from which `F` reaches what it reaches from `s`
* `cleaned i`, `closeEach l`: what the cleanup of a child leaves, and the destruction of children

## Main results

* `meets_cleanup`, `meets_destroyResult`: an interrupted cleanup reaches the same state
* `meets_destroyEach`: what an interruption leaves of a list of children
-/

namespace DuckdbMl.Interruption

open Effects

variable {E : Type} {s t : Owner} {i : ℕ}

/-- Nothing is lost, and `F` reaches the same state as before. -/
def Kept (F : Owner → Owner) (s : Owner) (σ : Site) (t : Owner) : Prop := σ = .free ∧ F t = F s

namespace Kept

variable {F : Owner → Owner} {f : Owner → Owner}

/-- An action that `F` absorbs. -/
theorem act (ht : F t = F s) (hf : F (f t) = F t) :
    Meets (act .free .free f : Cleaning Owner E Unit) t (f t) (Kept F s) :=
  .act ⟨rfl, ht⟩ ⟨rfl, hf.trans ht⟩

/-- A `finally` block with an effect that `F` absorbs. -/
theorem finally_ {d : Cleaning Owner E Unit} {g : Owner → Owner}
    (hd : ∀ v, Runs d v (.ok ()) (g v)) (hg : ∀ v, F (g v) = F v) :
    ∀ σ v, Kept F s σ v → ∃ w, Runs d v (.ok ()) w ∧ Kept F s σ w :=
  fun _ v hv => ⟨g v, hd v, hv.1, (hg v).trans hv.2⟩

end Kept

/-! ### Native shells -/

namespace Native

theorem clearResult_clearResult (n : Native) : n.clearResult.clearResult = n.clearResult := by
  rcases n with ⟨_ | _, _, _ | _, _, _, _⟩ <;> rfl

theorem finish_clear (n : Native) : n.clear.finish = n.finish := by
  rcases n with ⟨_ | _, _ | _, _ | _, _, _, _⟩ <;> rfl

theorem finish_finish (n : Native) : n.finish.finish = n.finish := by
  rcases n with ⟨_ | _, _ | _, _ | _, _, _, _⟩ <;> rfl

theorem slot_clear (n : Native) : n.clear.slot = n.slot := by
  rcases n with ⟨_ | _, _ | _, _ | _, _, _, _⟩ <;> rfl

end Native

/-! ### Requests -/

def Request.joined (r : Request) : Request := r.stopController.dropController

def Request.admitted (facade : Bool) (r : Request) : Request :=
  if facade && r.cancelled then r.joined else r

theorem Request.admitted_stopController {facade : Bool} {r : Request}
    (h : (facade && r.cancelled) = true) :
    r.stopController.admitted facade = r.admitted facade := by
  have h' : (facade && r.stopController.cancelled) = true := h
  rw [admitted, admitted, if_pos h, if_pos h']
  rfl

theorem Request.admitted_joined {facade : Bool} {r : Request} (h : (facade && r.cancelled) = true) :
    r.joined.admitted facade = r.admitted facade := by
  have h' : (facade && r.joined.cancelled) = true := h
  rw [admitted, admitted, if_pos h, if_pos h']
  rfl

theorem Request.admitted_admitted (facade : Bool) (r : Request) :
    (r.admitted facade).admitted facade = r.admitted facade := by
  cases h : facade && r.cancelled with
  | false =>
    have he : r.admitted facade = r := by
      rw [admitted, h]
      rfl
    rw [he, he]
  | true =>
    have he : r.admitted facade = r.joined := if_pos h
    rw [he, admitted_joined h, he]

theorem meets_joinController {R : Site → Owner → Prop} (hs : R .free s)
    (hstopped : R .free (s.onRequest Request.stopController))
    (hjoined : R .free (s.onRequest Request.joined)) :
    Meets (joinController : Cleaning Owner E Unit) s (s.onRequest Request.joined) R := by
  refine (Meets.act hs hstopped).bind (.look ?_)
  cases hc : (s.onRequest Request.stopController).request.controller with
  | false =>
    have he : s.onRequest Request.joined = s.onRequest Request.stopController := by
      have hdrop : s.request.joined = s.request.stopController := by
        have hc : s.request.stopController.controller = false := hc
        rw [Request.joined, Request.dropController, ← hc]
      rw [Owner.onRequest, Owner.onRequest, hdrop]
    rw [he]
    exact .pure _
  | true => exact (Meets.act hstopped hstopped).bind (.act hstopped hjoined)

theorem meets_admitCleanup {R : Site → Owner → Prop} {facade : Bool} (hs : R .free s)
    (hjoin : (facade && s.request.cancelled) = true → R .free (s.onRequest Request.stopController) ∧
      R .free (s.onRequest Request.joined)) :
    Meets (admitCleanup facade : Cleaning Owner E Unit) s (s.onRequest (Request.admitted facade))
      R := by
  refine .look ?_
  rw [Owner.onRequest, Request.admitted]
  cases h : facade && s.request.cancelled with
  | false => exact .pure s
  | true => exact meets_joinController hs (hjoin h).1 (hjoin h).2

theorem runs_admitCleanup (facade : Bool) (s : Owner) :
    Runs (admitCleanup facade : Cleaning Owner E Unit) s (.ok ())
      (s.onRequest (Request.admitted facade)) :=
  (@meets_admitCleanup E s (fun _ _ => True) facade trivial fun _ => ⟨trivial, trivial⟩).full

/-! ### Actions -/

namespace Owner

variable {f g : Child → Child}

@[simp] theorem children_update_self (i : ℕ) (f : Child → Child) (s : Owner) :
    (s.update i f).children i = f (s.children i) := Function.update_self ..

theorem children_update_of_ne {j : ℕ} (hj : j ≠ i) (f : Child → Child) (s : Owner) :
    (s.update i f).children j = s.children j := Function.update_of_ne hj ..

theorem update_update (i : ℕ) (f g : Child → Child) (s : Owner) :
    (s.update i f).update i g = s.update i (g ∘ f) := by
  rw [update, children_update_self, update, update, Function.update_idem]
  rfl

theorem update_congr (h : f (s.children i) = g (s.children i)) : s.update i f = s.update i g := by
  rw [update, update, h]

theorem releaseResult_releaseResult (i : ℕ) (s : Owner) :
    (s.releaseResult i).releaseResult i = s.releaseResult i := by
  have h : (if (if s.resultOwner = some i then none else s.resultOwner) = some i then none
      else if s.resultOwner = some i then none else s.resultOwner) =
        if s.resultOwner = some i then none else s.resultOwner := by
    split <;> simp_all
  rw [releaseResult, releaseResult]
  dsimp only
  rw [h]

end Owner

/-- What a cleanup leaves that makes `close` of a child. -/
def cleanedBy (close : Child → Child) (i : ℕ) (s : Owner) : Owner :=
  ((s.onRequest (Request.admitted (s.children i).facade)).update i close).releaseResult i

section CleanedBy

variable {close : Child → Child}

theorem cleanedBy_update {f : Child → Child}
    (hfacade : (f (s.children i)).facade = (s.children i).facade)
    (h : close (f (s.children i)) = close (s.children i)) :
    cleanedBy close i (s.update i f) = cleanedBy close i s := by
  rw [cleanedBy, Owner.children_update_self, hfacade]
  change ((((s.onRequest (Request.admitted (s.children i).facade)).update i f).update i
    close).releaseResult i) = _
  rw [Owner.update_update]
  exact congrArg (Owner.releaseResult i) (Owner.update_congr h)

theorem cleanedBy_onRequest {f : Request → Request} (h : (f s.request).admitted
    (s.children i).facade = s.request.admitted (s.children i).facade) :
    cleanedBy close i (s.onRequest f) = cleanedBy close i s := by
  have he : (s.onRequest f).onRequest (Request.admitted (s.children i).facade) =
      s.onRequest (Request.admitted (s.children i).facade) := by
    rw [Owner.onRequest, Owner.onRequest, Owner.onRequest, h]
  rw [cleanedBy, cleanedBy, ← he]
  rfl

theorem cleanedBy_releaseResult (close : Child → Child) (i : ℕ) (s : Owner) :
    cleanedBy close i (s.releaseResult i) = cleanedBy close i s := by
  change (((s.onRequest (Request.admitted (s.children i).facade)).update i
    close).releaseResult i).releaseResult i = _
  rw [Owner.releaseResult_releaseResult]
  rfl

theorem cleanedBy_admitted (close : Child → Child) (i : ℕ) (s : Owner) :
    cleanedBy close i (s.onRequest (Request.admitted (s.children i).facade)) =
      cleanedBy close i s :=
  cleanedBy_onRequest (Request.admitted_admitted _ _)

end CleanedBy

/-! ### Admission and release -/

theorem meets_admitChild {F : Owner → Owner}
    (hrequest : ∀ v (f : Request → Request), (f v.request).admitted (v.children i).facade =
      v.request.admitted (v.children i).facade → F (v.onRequest f) = F v) (ht : F t = F s) :
    Meets (look fun s => admitCleanup (s.children i).facade : Cleaning Owner E Unit) t
      (t.onRequest (Request.admitted (t.children i).facade)) (Kept F s) :=
  .look (meets_admitCleanup ⟨rfl, ht⟩ fun h =>
    ⟨⟨rfl, (hrequest t _ (Request.admitted_stopController h)).trans ht⟩,
      ⟨rfl, (hrequest t _ (Request.admitted_joined h)).trans ht⟩⟩)

/-- A native shell is closed behind the admission of the cleanup. -/
theorem meets_release {close : Child → Child} {clear finish : Native → Native}
    (hclear : ∀ v, cleanedBy close i (v.onNative i clear) = cleanedBy close i v)
    (hfinish : ∀ v, cleanedBy close i (v.onNative i finish) = cleanedBy close i v) (s : Owner) :
    Meets (do
        look fun s => admitCleanup (s.children i).facade
        releaseNative (Owner.onNative i clear) (Owner.onNative i finish) : Cleaning Owner E Unit) s
      (((s.onRequest (Request.admitted (s.children i).facade)).onNative i clear).onNative i finish)
      (Kept (cleanedBy close i) s) := by
  have hadmitted := cleanedBy_admitted close i s
  exact (meets_admitChild (fun v f => cleanedBy_onRequest) rfl).bind
    (.protect (Kept.act hadmitted (hclear _)) (Kept.act ((hclear _).trans hadmitted) (hfinish _))
      (Kept.finally_ (fun v => .act _ _ _ _) hfinish))

/-! ### Prepared statements -/

/-- What the cleanup of a prepared statement makes of it. -/
def Child.closePrepared (c : Child) : Child :=
  { c with
    native := c.native.finish, resultClosed := c.resultClosed || c.hasResult, hasResult := false }

theorem closePrepared_onNative {f : Native → Native} (h : ∀ n, (f n).finish = n.finish)
    (v : Owner) : cleanedBy Child.closePrepared i (v.onNative i f) =
      cleanedBy Child.closePrepared i v :=
  cleanedBy_update rfl (by simp only [Child.closePrepared, h])

theorem closePrepared_closeOwnResult (v : Owner) :
    cleanedBy Child.closePrepared i (v.update i Child.closeOwnResult) =
      cleanedBy Child.closePrepared i v :=
  cleanedBy_update rfl (by simp [Child.closePrepared, Child.closeOwnResult])

/-- The result of a statement is forgotten after it has been closed. -/
theorem closePrepared_dropResult (v : Owner) :
    cleanedBy Child.closePrepared i ((v.update i Child.closeOwnResult).update i Child.dropResult) =
      cleanedBy Child.closePrepared i v := by
  rw [Owner.update_update]
  exact cleanedBy_update rfl
    (by simp [Child.closePrepared, Child.closeOwnResult, Child.dropResult])

/-- **An interrupted cleanup of a prepared statement can be retried.** -/
theorem meets_cleanupPrepared (i : ℕ) (s : Owner) :
    Meets (cleanupPrepared i : Cleaning Owner E Unit) s (cleanedBy Child.closePrepared i s)
      (Kept (cleanedBy Child.closePrepared i) s) := by
  have hclose : Meets (nativeClose i : Cleaning Owner E Unit) s _ _ :=
    meets_release (closePrepared_onNative Native.finish_clear)
      (closePrepared_onNative Native.finish_finish) s
  have hnative := ((closePrepared_onNative (i := i) Native.finish_finish _).trans
    (closePrepared_onNative Native.finish_clear _)).trans
      (cleanedBy_admitted Child.closePrepared i s)
  have hown := closePrepared_closeOwnResult (i := i) (((s.onRequest (Request.admitted
    (s.children i).facade)).onNative i Native.clear).onNative i Native.finish)
  have hdrop := closePrepared_dropResult (i := i) (((s.onRequest (Request.admitted
    (s.children i).facade)).onNative i Native.clear).onNative i Native.finish)
  have hend := hclose.protect
    ((Kept.act hnative hown).bind ((Meets.act ⟨rfl, hown.trans hnative⟩
      ⟨rfl, hdrop.trans hnative⟩).bind
        (Kept.act (hdrop.trans hnative) (cleanedBy_releaseResult _ i _))))
    (Kept.finally_ (fun v => (Runs.act _ _ _ _).bind ((Runs.act _ _ _ _).bind (.act _ _ _ _)))
      fun v => (cleanedBy_releaseResult _ i _).trans (closePrepared_dropResult v))
  have he : (((((s.onRequest (Request.admitted (s.children i).facade)).onNative i
      Native.clear).onNative i Native.finish).update i Child.closeOwnResult).update i
        Child.dropResult).releaseResult i = cleanedBy Child.closePrepared i s := by
    simp only [Owner.onNative, Owner.update_update]
    refine congrArg (Owner.releaseResult i) (Owner.update_congr ?_)
    simp [Child.closePrepared, Child.closeOwnResult, Child.dropResult, Native.finish_clear]
  rw [he] at hend
  exact hend

/-! ### Results -/

/-- What the destruction of a result makes of its statement. -/
def Child.destroyResult (c : Child) : Child :=
  { c with native := c.native.clearResult, resultClosed := true, hasResult := false }

theorem destroyResult_onNative (v : Owner) :
    cleanedBy Child.destroyResult i (v.onNative i Native.clearResult) =
      cleanedBy Child.destroyResult i v :=
  cleanedBy_update rfl (by simp only [Child.destroyResult, Native.clearResult_clearResult])

theorem destroyResult_closeResult (v : Owner) :
    cleanedBy Child.destroyResult i (v.update i Child.closeResult) =
      cleanedBy Child.destroyResult i v := cleanedBy_update rfl rfl

theorem destroyResult_dropResult (v : Owner) :
    cleanedBy Child.destroyResult i (v.update i Child.dropResult) =
      cleanedBy Child.destroyResult i v := cleanedBy_update rfl rfl

/-- **An interrupted destruction of a result can be retried.** -/
theorem meets_destroyResult (i : ℕ) (s : Owner) :
    Meets (destroyResult i : Cleaning Owner E Unit) s (cleanedBy Child.destroyResult i s)
      (Kept (cleanedBy Child.destroyResult i) s) := by
  have hclose : Meets (nativeCloseResult i : Cleaning Owner E Unit) s _ _ :=
    meets_release destroyResult_onNative destroyResult_onNative s
  have hnative := ((destroyResult_onNative (i := i) _).trans (destroyResult_onNative _)).trans
    (cleanedBy_admitted Child.destroyResult i s)
  have hresult := (destroyResult_closeResult (i := i) _).trans hnative
  have hdrop := (destroyResult_dropResult (i := i) _).trans hresult
  have hend := hclose.protect
    ((Kept.act hnative (destroyResult_closeResult _)).bind
      ((Kept.act hresult (destroyResult_dropResult _)).bind
        (Kept.act hdrop (cleanedBy_releaseResult _ i _))))
    (Kept.finally_ (fun v => (Runs.act _ _ _ _).bind ((Runs.act _ _ _ _).bind (.act _ _ _ _)))
      fun v => (cleanedBy_releaseResult _ i _).trans
        ((destroyResult_dropResult _).trans (destroyResult_closeResult v)))
  have he : (((((s.onRequest (Request.admitted (s.children i).facade)).onNative i
      Native.clearResult).onNative i Native.clearResult).update i Child.closeResult).update i
        Child.dropResult).releaseResult i = cleanedBy Child.destroyResult i s := by
    simp only [Owner.onNative, Owner.update_update]
    refine congrArg (Owner.releaseResult i) (Owner.update_congr ?_)
    simp [Child.destroyResult, Child.closeResult, Child.dropResult, Native.clearResult_clearResult]
  rw [he] at hend
  exact hend

/-! ### Appenders -/

/-- What the cleanup of an appender makes of it. -/
def Child.closeAppender (c : Child) : Child :=
  { c with native := c.native.finish, failure := c.failure <|> some discarded }

def cleanedAppender (i : ℕ) (s : Owner) : Owner := cleanedBy Child.closeAppender i s.poison

theorem closeAppender_onNative {f : Native → Native} (h : ∀ n, (f n).finish = n.finish)
    (v : Owner) : cleanedAppender i (v.onNative i f) = cleanedAppender i v :=
  cleanedBy_update (s := v.poison) (f := fun c => { c with native := f c.native }) rfl
    (by simp only [Child.closeAppender, h])

theorem closeAppender_poison (v : Owner) :
    cleanedAppender i (v.update i Child.poison) = cleanedAppender i v :=
  cleanedBy_update (s := v.poison) rfl (by
    simp only [Child.closeAppender, Child.poison]
    cases (v.poison.children i).failure <;> rfl)

theorem cleanedAppender_poison (v : Owner) : cleanedAppender i v.poison = cleanedAppender i v := by
  have he : v.poison.poison = v.poison := by
    rw [Owner.poison, Owner.poison]
    cases v.failure <;> rfl
  rw [cleanedAppender, he]
  rfl

theorem cleanedAppender_onRequest {f : Request → Request} {v : Owner} (h : (f v.request).admitted
    (v.children i).facade = v.request.admitted (v.children i).facade) :
    cleanedAppender i (v.onRequest f) = cleanedAppender i v :=
  cleanedBy_onRequest (s := v.poison) h

theorem cleanedAppender_releaseResult (v : Owner) :
    cleanedAppender i (v.releaseResult i) = cleanedAppender i v :=
  cleanedBy_releaseResult _ i v.poison

/-- The status of a shell that is there can be read. -/
theorem readAppender_of_slot {v : Owner} (h : (v.children i).native.slot = true) :
    v.readAppender i = v := by
  rw [Owner.readAppender, h, Bool.not_true, Bool.or_false]

theorem Native.finish_of_not_slot {n : Native} (h : n.slot = false) : n.finish = n := by
  rw [finish, if_neg (h ▸ Bool.false_ne_true)]

/-- The destruction of the shell, when it is there. -/
theorem meets_destroyAppender (ht : cleanedAppender i t = cleanedAppender i s) :
    Meets (destroyAppender i : Cleaning Owner E Unit) t
      ((t.onRequest (Request.admitted (t.children i).facade)).onNative i Native.finish)
      (Kept (cleanedAppender i) s) := by
  have hadmitted : cleanedAppender i (t.onRequest (Request.admitted (t.children i).facade)) =
      cleanedAppender i s :=
    (cleanedAppender_onRequest (Request.admitted_admitted _ _)).trans ht
  refine (meets_admitChild (fun v f => cleanedAppender_onRequest) ht).bind (.look ?_)
  generalize t.onRequest (Request.admitted (t.children i).facade) = v at hadmitted
  cases hslot : (v.children i).native.slot with
  -- the shell has been finished before
  | false =>
    have he : v.onNative i Native.finish = v := by
      rw [Owner.onNative, Owner.update, Native.finish_of_not_slot hslot, Function.update_eq_self]
    rw [he]
    exact .pure v
  | true =>
    have hclear := (closeAppender_onNative (i := i) Native.finish_clear v).trans hadmitted
    have hread : (v.onNative i Native.clear).readAppender i = v.onNative i Native.clear := by
      refine readAppender_of_slot ?_
      rw [Owner.onNative, Owner.children_update_self]
      exact (Native.slot_clear _).trans hslot
    have hfinish : (v.onNative i Native.clear).onNative i Native.finish =
        v.onNative i Native.finish := by
      simp only [Owner.onNative, Owner.update_update]
      exact Owner.update_congr (by simp [Native.finish_clear])
    -- the close, after which the status is read from what is still there
    have hbody : Meets (do
        act .free .free (Owner.onNative i Native.clear)
        act .free .free (Owner.readAppender i) : Cleaning Owner E Unit) v
        (v.onNative i Native.clear) (Kept (cleanedAppender i) s) := by
      refine (Kept.act hadmitted (closeAppender_onNative Native.finish_clear v)).bind ?_
      have hact := Kept.act (E := E) (f := Owner.readAppender i) hclear (by rw [hread])
      rw [hread] at hact
      exact hact
    have hend := hbody.protect
      (Kept.act hclear (closeAppender_onNative Native.finish_finish _))
      (Kept.finally_ (fun v => .act _ _ _ _) (closeAppender_onNative Native.finish_finish))
    rw [hfinish] at hend
    exact hend

/-- **An interrupted cleanup of an appender can be retried.** -/
theorem meets_cleanupAppender (i : ℕ) (s : Owner) :
    Meets (cleanupAppender i : Cleaning Owner E Unit) s (cleanedAppender i s)
      (Kept (cleanedAppender i) s) := by
  -- the poison comes first, and is the same when it comes again
  have hpoison := closeAppender_poison (i := i) s
  have hpoisoned := (cleanedAppender_poison (i := i) (s.update i Child.poison)).trans hpoison
  have hend := ((Kept.act rfl hpoison).bind
    (Kept.act hpoison (cleanedAppender_poison (s.update i Child.poison)))).bind
      ((meets_destroyAppender (E := E) hpoisoned).protect
        (Kept.act (((closeAppender_onNative Native.finish_finish _).trans
          (cleanedAppender_onRequest (Request.admitted_admitted _ _))).trans hpoisoned)
            (cleanedAppender_releaseResult _))
        (Kept.finally_ (fun v => .act _ _ _ _) fun v => cleanedAppender_releaseResult v))
  have hfacade : ((s.update i Child.poison).poison.children i).facade = (s.children i).facade := by
    change ((s.update i Child.poison).children i).facade = _
    rw [Owner.children_update_self]
    rfl
  have he : ((((s.update i Child.poison).poison.onRequest (Request.admitted
      ((s.update i Child.poison).poison.children i).facade)).onNative i
        Native.finish).releaseResult i) = cleanedAppender i s := by
    rw [hfacade]
    change (((s.poison.onRequest (Request.admitted (s.children i).facade)).update i
      Child.poison).onNative i Native.finish).releaseResult i = _
    rw [Owner.onNative, Owner.update_update]
    exact congrArg (Owner.releaseResult i) (Owner.update_congr rfl)
  rw [he] at hend
  exact hend

/-! ### Children -/

/-- What the cleanup of a child leaves. -/
def cleaned (i : ℕ) (s : Owner) : Owner :=
  if (s.children i).appender then cleanedAppender i s else cleanedBy Child.closePrepared i s

theorem children_cleanedBy (close : Child → Child) (i : ℕ) (s : Owner) :
    (cleanedBy close i s).children = Function.update s.children i (close (s.children i)) := rfl

theorem children_cleanedAppender (i : ℕ) (s : Owner) : (cleanedAppender i s).children =
    Function.update s.children i (s.children i).closeAppender := rfl

/-- **An interrupted cleanup of a child can be retried.** -/
theorem meets_cleanup (i : ℕ) (s : Owner) : Meets (cleanup i : Cleaning Owner E Unit) s
    (cleaned i s) (Kept (cleaned i) s) := by
  refine .look ?_
  cases hs : (s.children i).appender with
  | true =>
    have he : cleaned i s = cleanedAppender i s := if_pos hs
    rw [he]
    refine (meets_cleanupAppender i s).mono fun σ t ht => ⟨ht.1, ?_⟩
    have hc := congrArg (fun u : Owner => (u.children i).appender) ht.2
    simp only [children_cleanedAppender, Function.update_self] at hc
    -- what is left is still an appender, and is cleaned as one
    have ha : (t.children i).appender = true := hc.trans hs
    rw [he, cleaned, if_pos ha]
    exact ht.2
  | false =>
    have hns : ¬ (s.children i).appender = true := by simp [hs]
    have he : cleaned i s = cleanedBy Child.closePrepared i s := if_neg hns
    rw [he]
    refine (meets_cleanupPrepared i s).mono fun σ t ht => ⟨ht.1, ?_⟩
    have hc := congrArg (fun u : Owner => (u.children i).appender) ht.2
    simp only [children_cleanedBy, Function.update_self] at hc
    have ha : ¬ (t.children i).appender = true := by
      have : (t.children i).appender = (s.children i).appender := hc
      rwa [this]
    rw [he, cleaned, if_neg ha]
    exact ht.2

theorem runs_cleanup (i : ℕ) (s : Owner) :
    Runs (cleanup i : Cleaning Owner E Unit) s (.ok ()) (cleaned i s) := (meets_cleanup i s).full

/-- **An interruption of the cleanup of a child is made good at once.** -/
theorem meets_completeCleanup (i : ℕ) (s : Owner) :
    Meets (completeCleanup (cleanup i) : Cleaning Owner E Unit) s (cleaned i s)
      (fun σ t => σ = .free ∧ t = cleaned i s) :=
  (meets_cleanup i s).completeCleanup fun _ t ht => ⟨cleaned i t, runs_cleanup i t, ht⟩


/-! ### Lists of children -/

/-- What the destruction of a child leaves. -/
def closeOne (i : ℕ) (s : Owner) : Owner := ((cleaned i s).update i Child.mark).dropChild i

def closeEach : List ℕ → Owner → Owner
  | [], s => s
  | i :: rest, s => closeEach rest (closeOne i s)

/-- The site at which the children after a closed one are known. -/
abbrev laterSite (site : Site) (rest : List ℕ) : Site := if rest.isEmpty then .free else site

/-- What an interruption leaves of the destruction of children: everything is closed when the
cleanup of a child was interrupted, and otherwise the children after some point are left. -/
inductive Broken (site : Site) : List ℕ → Owner → Site → Owner → Prop
  | closed {l : List ℕ} {s : Owner} : Broken site l s .free (closeEach l s)
  | cleaned {i : ℕ} {rest : List ℕ} {s : Owner} :
    Broken site (i :: rest) s site (Interruption.cleaned i s)
  | marked {i : ℕ} {rest : List ℕ} {s : Owner} : Broken site (i :: rest) s (laterSite site rest)
    ((Interruption.cleaned i s).update i Child.mark)
  | dropped {i : ℕ} {rest : List ℕ} {s : Owner} :
    Broken site (i :: rest) s (laterSite site rest) (closeOne i s)
  | later {i : ℕ} {rest : List ℕ} {s t : Owner} {σ : Site} :
    Broken site rest (closeOne i s) σ t → Broken site (i :: rest) s σ t

theorem runs_destroyEach (site : Site) (l : List ℕ) (s : Owner) :
    Runs (destroyEach site l : Cleaning Owner E Unit) s (.ok ()) (closeEach l s) := by
  induction l generalizing s with
  | nil => exact .pure s
  | cons i rest ih =>
    exact (runs_cleanup i s).completeCleanup.protect
      (((Runs.act _ _ _ _).bind (.act _ _ _ _)).bind (ih (closeOne i s)))

/-- **An interrupted destruction of children** leaves no child half cleaned. -/
theorem meets_destroyEach (site : Site) (l : List ℕ) (s : Owner) :
    Meets (destroyEach site l : Cleaning Owner E Unit) s (closeEach l s) (Broken site l s) := by
  induction l generalizing s with
  | nil => exact .pure s
  | cons i rest ih =>
    have hunregister : Meets (unregisterChild site (laterSite site rest) i : Cleaning Owner E Unit)
        (cleaned i s) (closeOne i s) (Broken site (i :: rest) s) :=
      (Meets.act .cleaned .marked).bind (.act .marked .dropped)
    refine (meets_completeCleanup i s).protect
      (hunregister.bind ((ih (closeOne i s)).mono fun _ _ => .later)) ?_
    rintro σ v ⟨rfl, rfl⟩
    refine ⟨closeEach (i :: rest) s, ?_, .closed⟩
    exact ((Runs.act _ _ _ _).bind (.act _ _ _ _)).bind (runs_destroyEach site rest (closeOne i s))

end DuckdbMl.Interruption
