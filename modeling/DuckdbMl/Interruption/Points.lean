import DuckdbMl.Interruption.Transaction
import Mathlib.Algebra.Order.Ring.Nat

/-!
# The points of the cleanups

The points at which an interruption may strike are counted from the state in which a cleanup starts.

## Main definitions

* `Child.points`: how many points the cleanup of a child has
* `Owner.exposure`, `Cleanup.exposure`: at which of the points of a cleanup its code alone still
  knows of something that it has to release

## Main results

* `passes_destroyConnection`, `passes_removeTemporary`: the points of the two cleanups that hold
  something
-/

namespace DuckdbMl.Interruption

open Effects

variable {E : Type} {s t : Owner} {i : ℕ}

/-! ### How many points -/

/-- The controller is told to stop and, when there is one, joined and dropped. -/
def Request.joinPoints (r : Request) : ℕ := 2 + if r.controller then 4 else 0

def Request.admitPoints (facade : Bool) (r : Request) : ℕ :=
  if facade && r.cancelled then r.joinPoints else 0

/-- The cleanup of a child: an appender is poisoned, and its shell closed when it is there; a
statement is closed, and its result revoked. -/
def Child.points (r : Request) (c : Child) : ℕ :=
  if c.appender then 4 + (r.admitPoints c.facade + (if c.native.slot then 6 else 0) + 2)
  else r.admitPoints c.facade + 4 + 6

theorem strolls_when {b : Bool} {c : Cleaning Owner E Unit} {n : ℕ} (hc : ∃ t, Strolls c s n t) :
    ∃ t, Strolls (Comp.when b c) s (if b then n else 0) t := by
  cases b with
  | false => exact ⟨s, .pure s⟩
  | true => exact hc

theorem strolls_joinController (s : Owner) : Strolls (joinController : Cleaning Owner E Unit) s
    s.request.joinPoints (s.onRequest Request.joined) := by
  have hmeets : Meets (joinController : Cleaning Owner E Unit) s (s.onRequest Request.joined)
      fun _ _ => True := meets_joinController trivial trivial trivial
  obtain ⟨t, ht⟩ := strolls_when (E := E) (s := s.onRequest Request.stopController)
    (b := s.request.controller) ⟨_, (Strolls.act id _).bind
      (Strolls.act (Owner.onRequest Request.dropController) _)⟩
  exact Passes.of_meets hmeets ((Strolls.act _ s).bind (Passes.look ht))

theorem strolls_admitCleanup (facade : Bool) (s : Owner) :
    Strolls (admitCleanup facade : Cleaning Owner E Unit) s (s.request.admitPoints facade)
      (s.onRequest (Request.admitted facade)) := by
  refine Passes.look ?_
  rw [Owner.onRequest, Request.admitted, Request.admitPoints]
  cases facade && s.request.cancelled with
  | false => exact .pure s
  | true => exact strolls_joinController s

theorem total_act (before after : Site) (f : Owner → Owner) :
    Total (act before after f : Cleaning Owner E Unit) := fun v => ⟨f v, .act _ _ _ v⟩

theorem strolls_releaseNative (close finish : Owner → Owner) (s : Owner) :
    Strolls (releaseNative close finish : Cleaning Owner E Unit) s 4 (finish (close s)) :=
  (Strolls.act close s).protect (Strolls.act finish _) (total_act _ _ _)

theorem strolls_cleanupPrepared (i : ℕ) (s : Owner) :
    Strolls (cleanupPrepared i : Cleaning Owner E Unit) s
      (s.request.admitPoints (s.children i).facade + 4 + 6) (cleanedBy Child.closePrepared i s) := by
  have hclose : Strolls (nativeClose i : Cleaning Owner E Unit) s
      (s.request.admitPoints (s.children i).facade + 4) _ :=
    Strolls.bind (Passes.look (strolls_admitCleanup _ s)) (strolls_releaseNative _ _ _)
  have hrevoke : ∀ v, Strolls (revokeResult i : Cleaning Owner E Unit) v 6 _ := fun v =>
    (Strolls.act _ v).bind ((Strolls.act _ _).bind (Strolls.act _ _))
  exact Passes.of_meets (meets_cleanupPrepared i s) (hclose.protect (hrevoke _) fun v =>
    ⟨_, (Runs.act _ _ _ _).bind ((Runs.act _ _ _ _).bind (.act _ _ _ _))⟩)

theorem strolls_destroyAppender (i : ℕ) (s : Owner) :
    ∃ t, Strolls (destroyAppender i : Cleaning Owner E Unit) s
      (s.request.admitPoints (s.children i).facade +
        if (s.children i).native.slot then 6 else 0) t := by
  obtain ⟨t, ht⟩ := strolls_when (E := E)
    (s := s.onRequest (Request.admitted (s.children i).facade)) (b := (s.children i).native.slot)
    ⟨_, ((Strolls.act (Owner.onNative i Native.clear) _).bind
      (Strolls.act (Owner.readAppender i) _)).protect
        (Strolls.act (Owner.onNative i Native.finish) _) (total_act _ _ _)⟩
  exact ⟨t, Strolls.bind (Passes.look (strolls_admitCleanup _ s)) (Passes.look ht)⟩

theorem strolls_cleanupAppender (i : ℕ) (s : Owner) :
    Strolls (cleanupAppender i : Cleaning Owner E Unit) s
      (4 + (s.request.admitPoints (s.children i).facade +
        (if (s.children i).native.slot then 6 else 0) + 2)) (cleanedAppender i s) := by
  have hpoison : Strolls (poison i : Cleaning Owner E Unit) s 4
      (s.update i Child.poison).poison := (Strolls.act _ s).bind (Strolls.act _ _)
  obtain ⟨t, hdestroy⟩ := strolls_destroyAppender (E := E) i (s.update i Child.poison).poison
  have hchild : (s.update i Child.poison).poison.children i = (s.children i).poison :=
    Owner.children_update_self ..
  rw [hchild] at hdestroy
  exact Passes.of_meets (meets_cleanupAppender i s)
    (hpoison.bind (Strolls.protect hdestroy (Strolls.act _ t) (total_act _ _ _)))

theorem strolls_cleanup (i : ℕ) (s : Owner) : Strolls (cleanup i : Cleaning Owner E Unit) s
    ((s.children i).points s.request) (cleaned i s) := by
  refine Passes.look ?_
  rw [Child.points, cleaned]
  split
  · exact strolls_cleanupAppender i s
  · exact strolls_cleanupPrepared i s

/-! ### Lists of children -/

/-- The sites of the destruction of children with `n` points each. -/
def eachSites (site : Site) (n : ℕ → ℕ) : List ℕ → List Site
  | [] => []
  | i :: rest =>
    List.replicate (n i) .free ++
      (site :: List.replicate 3 (laterSite site rest)) ++ eachSites site n rest

theorem eachSites_congr {site : Site} {n m : ℕ → ℕ} {l : List ℕ} (h : ∀ i ∈ l, n i = m i) :
    eachSites site n l = eachSites site m l := by
  induction l with
  | nil => rfl
  | cons i rest ih =>
    rw [eachSites, eachSites, h i List.mem_cons_self,
      ih fun j hj => h j (List.mem_cons_of_mem i hj)]

/-- Children whose cleanup leaves the request as it is. -/
def Idle (l : List ℕ) (s : Owner) : Prop :=
  ∀ i ∈ l, s.request.admitted (s.children i).facade = s.request

theorem request_closeOne (i : ℕ) (s : Owner) :
    (closeOne i s).request = s.request.admitted (s.children i).facade := by
  rw [closeOne, cleaned_eq]
  rfl

theorem passes_destroyEach (site : Site) {l : List ℕ} (hl : l.Nodup) (hs : Idle l s) :
    Passes (destroyEach site l : Cleaning Owner E Unit) s
      (eachSites site (fun i => (s.children i).points s.request) l) (.ok ()) (closeEach l s) := by
  induction l generalizing s with
  | nil => exact .pure s
  | cons i rest ih =>
    obtain ⟨hi, hrest⟩ := List.nodup_cons.mp hl
    have hrequest : (closeOne i s).request = s.request :=
      (request_closeOne i s).trans (hs i List.mem_cons_self)
    have hchild : ∀ j ∈ rest, (closeOne i s).children j = s.children j := fun j hj => by
      rw [children_closeOne, Function.update_of_ne fun he : j = i => hi (he ▸ hj)]
    have hlater := ih (s := closeOne i s) hrest fun j hj => by
      rw [hrequest, hchild j hj]
      exact hs j (List.mem_cons_of_mem i hj)
    rw [eachSites_congr fun j hj => by rw [hrequest, hchild j hj]] at hlater
    rw [eachSites, List.append_assoc]
    exact ((strolls_cleanup i s).completeCleanup fun v => ⟨_, runs_cleanup i v⟩).protect
      (((Passes.act site _ _ _).bind (Passes.act _ _ _ _)).bind hlater) fun v =>
        ⟨_, ((Runs.act _ _ _ _).bind (.act _ _ _ _)).bind (runs_destroyEach site rest _)⟩

theorem eachSites_free (n : ℕ → ℕ) (l : List ℕ) :
    eachSites .free n l = List.replicate (l.map fun i => n i + 4).sum .free := by
  induction l with
  | nil => rfl
  | cons i rest ih =>
    have hlater : laterSite .free rest = .free := by simp
    rw [eachSites, ih, hlater, List.map_cons, List.sum_cons, ← List.replicate_append_replicate,
      ← List.replicate_append_replicate]
    rfl

/-! ### The connection -/

/-- The statements taken out of the cache are held, but for the cleanup of each, which is retried,
until the last one has been closed. -/
def cacheExposure (n : ℕ → ℕ) : List ℕ → List Bool
  | [] => []
  | i :: rest =>
    List.replicate (n i) false ++ (true :: List.replicate 3 (!rest.isEmpty)) ++
      cacheExposure n rest

/-- The request of a connection when its children are destroyed. -/
def Owner.joinedRequest (s : Owner) : Request := if s.leased then s.request.joined else s.request

/-- **What the destruction of a connection exposes**: the statements of the cache, from the point
after it has been emptied, and the native request, from the point after it has been taken out of the
request until it is disposed of. -/
def Owner.exposure (s : Owner) : List Bool :=
  let n := fun i => (s.children i).points s.joinedRequest
  let joining := if s.leased then s.request.joinPoints else 0
  List.replicate (joining + (s.prepared.map fun i => n i + 4).sum) false ++
    [false, !s.cached.isEmpty] ++ cacheExposure n s.cached ++
      if s.leased && s.request.native then [false, false, false, true, true, true, true] else []

/-- The site of a point that is exposed, or is not. -/
def Site.of (holding : Bool) : Site := if holding then .holding else .free

theorem eachSites_holding (n : ℕ → ℕ) (l : List ℕ) :
    eachSites .holding n l = (cacheExposure n l).map Site.of := by
  induction l with
  | nil => rfl
  | cons i rest ih =>
    rw [eachSites, ih, cacheExposure]
    cases rest <;> simp [Site.of, List.map_replicate]

theorem passes_joinedOwner (s : Owner) :
    Strolls (look fun s => Comp.when s.leased joinController : Cleaning Owner E Unit) s
      (if s.leased then s.request.joinPoints else 0) (joinedOwner s) := by
  refine Passes.look ?_
  rw [joinedOwner]
  cases s.leased with
  | false => exact .pure s
  | true => exact strolls_joinController s

theorem Request.joined_admitted (facade : Bool) (r : Request) :
    r.joined.admitted facade = r.joined := by
  rw [Request.admitted]
  split <;> rfl

/-- The request is joined already, or no known child runs through its facade. -/
theorem idle_joinedOwner (h : Tracked s) {l : List ℕ} (hl : ∀ i ∈ l, s.Knows i) :
    Idle l (joinedOwner s) := by
  intro i hi
  rw [joinedOwner]
  cases hleased : s.leased with
  | true => exact Request.joined_admitted _ _
  | false =>
    have hfacade : (s.children i).facade = false := by
      refine eq_false_of_ne_true fun hf => ?_
      rw [h.facade i (hl i hi) hf] at hleased
      cases hleased
    show s.request.admitted (s.children i).facade = s.request
    rw [hfacade]
    rfl

/-- What the destruction of idle children leaves as it is. -/
theorem closeEach_of_idle {l : List ℕ} (hl : l.Nodup) (hs : Idle l s) :
    (closeEach l s).request = s.request ∧ (closeEach l s).cached = s.cached ∧
      (closeEach l s).leased = s.leased ∧ ∀ j ∉ l, (closeEach l s).children j = s.children j := by
  induction l generalizing s with
  | nil => exact ⟨rfl, rfl, rfl, fun _ _ => rfl⟩
  | cons i rest ih =>
    obtain ⟨hi, hrest⟩ := List.nodup_cons.mp hl
    have hrequest : (closeOne i s).request = s.request :=
      (request_closeOne i s).trans (hs i List.mem_cons_self)
    have hchild : ∀ j, j ≠ i → (closeOne i s).children j = s.children j := fun j hj => by
      rw [children_closeOne, Function.update_of_ne hj]
    have hfields : (closeOne i s).cached = s.cached ∧ (closeOne i s).leased = s.leased := by
      rw [closeOne, cleaned_eq]
      exact ⟨rfl, rfl⟩
    -- the other children are still idle after the first one
    obtain ⟨hr, hc, hle, hch⟩ := ih (s := closeOne i s) hrest fun j hj => by
      rw [hrequest, hchild j fun he => hi (he ▸ hj)]
      exact hs j (List.mem_cons_of_mem i hj)
    refine ⟨hr.trans hrequest, hc.trans hfields.1, hle.trans hfields.2, fun j hj => ?_⟩
    exact (hch j fun hr => hj (List.mem_cons_of_mem i hr)).trans
      (hchild j fun he => hj (he ▸ List.mem_cons_self))

/-- The native request is held from the point after it has been taken out of the request. -/
theorem passes_detachedClosed (hs : s.leased = true → s.request.controller = false) : ∃ m t,
    Passes (do
        detachOwnerRequest
        releaseNative Owner.closeConnection Owner.finishConnection : Cleaning Owner E Unit) s
      ((if s.leased && s.request.native then [false, false, false, true, true, true, true]
        else []).map Site.of ++ List.replicate m .free) (.ok ()) t := by
  -- three cases: no request, one without a native part, one with it
  have hdetach : ∃ m t, Passes (detachOwnerRequest : Cleaning Owner E Unit) s
      ((if s.leased && s.request.native then [false, false, false, true, true, true, true]
        else []).map Site.of ++ List.replicate m .free) (.ok ()) t := by
    cases hl : s.leased with
    | false => exact ⟨0, s, Passes.look (by rw [hl]; exact .pure s)⟩
    -- the controller has been joined, so that joining it again passes two points
    | true =>
      have hjoin : Passes (joinController : Cleaning Owner E Unit) s [.free, .free] (.ok ())
          (s.onRequest Request.joined) := by
        have hstroll := strolls_joinController (E := E) s
        rw [Request.joinPoints, hs hl] at hstroll
        exact hstroll
      have hnative : (s.onRequest Request.joined).request.native = s.request.native := rfl
      cases hn : s.request.native with
      | false =>
        have hrun : Passes (detachRequest : Cleaning Owner E Unit) s
            ([.free, .free] ++ ([.free, .free] ++ [])) (.ok ())
              ((s.onRequest Request.joined).onRequest Request.dropNative) := by
          refine hjoin.bind (Passes.look ?_)
          rw [hnative, hn]
          exact (Passes.act .free .free _ _).bind (.pure _)
        exact ⟨4, _, Passes.look (by rw [hl]; exact hrun)⟩
      -- the native part is held from when it is dropped until it is uninstalled and disposed of
      | true =>
        have hrun : Passes (detachRequest : Cleaning Owner E Unit) s ([.free, .free] ++
            ([.free, .holding] ++ ([.holding, .holding] ++ [.holding, .free]))) (.ok ())
              ((((s.onRequest Request.joined).onRequest Request.dropNative).onNativeRequest
                NativeRequest.uninstall).onNativeRequest NativeRequest.dispose) := by
          refine hjoin.bind (Passes.look ?_)
          rw [hnative, hn]
          exact (Passes.act .free .holding _ _).bind
            ((Passes.act .holding .holding _ _).bind (Passes.act .holding .free _ _))
        exact ⟨1, _, Passes.look (by rw [hl]; exact hrun)⟩
  obtain ⟨m, t, ht⟩ := hdetach
  have hrun := ht.bind (strolls_releaseNative Owner.closeConnection Owner.finishConnection t)
  rw [List.append_assoc, List.replicate_append_replicate] at hrun
  exact ⟨_, _, hrun⟩

/-- The statements of the cache are held from the point after it has been emptied. -/
theorem passes_destroyCached {n : ℕ → ℕ} (hl : s.cached.Nodup) (hs : Idle s.cached s)
    (hn : ∀ i ∈ s.cached, (s.children i).points s.request = n i) :
    Passes (destroyCached : Cleaning Owner E Unit) s
      (([false, !s.cached.isEmpty] ++ cacheExposure n s.cached).map Site.of) (.ok ())
        (closedCache s) := by
  have heach : Passes (destroyEach .holding s.cached : Cleaning Owner E Unit) s.emptyCache
      (eachSites .holding n s.cached) (.ok ()) (closedCache s) := by
    rw [← eachSites_congr hn]
    exact passes_destroyEach .holding hl hs
  rw [eachSites_holding] at heach
  cases hc : s.cached.isEmpty with
  | true =>
    refine Passes.look ?_
    rw [hc]
    exact (Passes.act .free .free Owner.emptyCache s).bind heach
  | false =>
    refine Passes.look ?_
    rw [hc]
    exact (Passes.act .free .holding Owner.emptyCache s).bind heach

theorem request_joinedOwner (s : Owner) : (joinedOwner s).request = s.joinedRequest := by
  rw [joinedOwner, Owner.joinedRequest]
  split <;> rfl

/-- **The points of the destruction of a connection**: after those listed nothing is held. -/
theorem passes_destroyConnection (h : Tracked s) : ∃ m t,
    Passes (destroyConnection : Cleaning Owner E Unit) s
      (s.exposure.map Site.of ++ List.replicate m .free) (.ok ()) t := by
  have hjoined : (joinedOwner s).children = s.children ∧ (joinedOwner s).prepared = s.prepared ∧
      (joinedOwner s).cached = s.cached ∧ (joinedOwner s).leased = s.leased := by
    rw [joinedOwner]
    split <;> exact ⟨rfl, rfl, rfl, rfl⟩
  obtain ⟨hchildren, hprepared, hcached, hleased⟩ := hjoined
  have hrequest := request_joinedOwner s
  have hknown := idle_joinedOwner h fun i hi => (Or.inl hi : s.Knows i)
  have hcacheIdle := idle_joinedOwner h fun i hi => (Or.inr hi : s.Knows i)
  -- the children, in the state after the controller has been joined
  have hchild : Strolls (destroyChildren fun _ => true : Cleaning Owner E Unit) (joinedOwner s)
      (s.prepared.map fun i => (s.children i).points s.joinedRequest + 4).sum
        (closedChildren (joinedOwner s)) := by
    have heach := passes_destroyEach (E := E) .free (l := (joinedOwner s).prepared)
      (hprepared ▸ h.nodup.1) (hprepared ▸ hknown)
    rw [eachSites_free, hchildren, hrequest, hprepared] at heach
    refine Passes.look ?_
    rw [destroyChildren_all, closedChildren, hprepared]
    exact heach
  -- the statements of the cache, none of which is among the children
  obtain ⟨hr, hc, hl, hch⟩ := closeEach_of_idle (s := joinedOwner s) h.nodup.1 hknown
  have hafter : closedChildren (joinedOwner s) = closeEach s.prepared (joinedOwner s) := by
    rw [closedChildren, hprepared]
  rw [← hafter] at hr hc hl hch
  have hsame : ∀ i ∈ s.cached, (closedChildren (joinedOwner s)).children i = s.children i :=
    fun i hi => (hch i (h.cached i hi).1).trans (congrFun hchildren i)
  have hidle : Idle (closedChildren (joinedOwner s)).cached (closedChildren (joinedOwner s)) := by
    intro i hi
    rw [hc, hcached] at hi
    rw [hr, hch i (h.cached i hi).1]
    exact hcacheIdle i hi
  have hcache := passes_destroyCached (E := E) (s := closedChildren (joinedOwner s))
    (n := fun i => (s.children i).points s.joinedRequest)
    (by rw [hc, hcached]; exact h.nodup.2) hidle fun i hi => by
      rw [hc, hcached] at hi
      rw [hsame i hi, hr, hrequest]
  rw [hc, hcached] at hcache
  -- the native request
  obtain ⟨hr', -, hl', -⟩ := closeEach_of_idle (s := (closedChildren (joinedOwner s)).withCache [])
    (l := (closedChildren (joinedOwner s)).cached) (by rw [hc, hcached]; exact h.nodup.2) hidle
  have hrequest' : (closedCache (closedChildren (joinedOwner s))).request = s.joinedRequest :=
    (hr'.trans hr).trans hrequest
  have hleased' : (closedCache (closedChildren (joinedOwner s))).leased = s.leased :=
    (hl'.trans hl).trans hleased
  obtain ⟨m, t, hdetach⟩ := passes_detachedClosed (E := E)
    (s := closedCache (closedChildren (joinedOwner s))) fun hle => by
      rw [hrequest', Owner.joinedRequest, if_pos (hleased' ▸ hle)]
      rfl
  have hnative : s.joinedRequest.native = s.request.native := by
    rw [Owner.joinedRequest]
    split <;> rfl
  rw [hleased', hrequest', hnative] at hdetach
  have hmark : Strolls (do markClosed; unregister : Cleaning Owner E Unit) t 4 _ :=
    (Strolls.act _ t).bind (Strolls.act _ _)
  have hinner := Passes.protect (Passes.protect hchild hcache fun v => ⟨_, runs_destroyCached v⟩)
    hdetach fun v => ⟨_, runs_detachedClosed v⟩
  have hrun := Passes.bind (passes_joinedOwner s) (Passes.protect hinner hmark fun v =>
    ⟨_, (Runs.act _ _ _ _).bind (.act _ _ _ _)⟩)
  refine ⟨m + 4, t.markClosed.unregister, Eq.subst (motive := fun l =>
    Passes (destroyConnection : Cleaning Owner E Unit) s l (.ok ()) _) ?_ hrun⟩
  simp only [Owner.exposure, List.map_append, List.map_replicate, List.append_assoc,
    ← List.replicate_append_replicate]
  rfl

/-! ### Temporary files -/

/-- **What the removal of a temporary file exposes**: the shell of the work, before the body that
protects it and before it is finished. -/
def Owner.fileExposure (s : Owner) : List Bool :=
  List.replicate (s.request.admitPoints s.facade) false ++ [false, true, false, false, true]

theorem passes_removeTemporary (sysError : E) (h : (s.file && !s.removable) = false) : ∃ t,
    Passes (removeTemporary sysError) s
      (s.fileExposure.map Site.of ++ List.replicate 1 .free) (.ok ()) t := by
  have hadmit : Strolls (look fun s => admitCleanup s.facade : Cleaning Owner E Unit) s _ _ :=
    Passes.look (strolls_admitCleanup s.facade s)
  have hfree : ((s.onRequest (Request.admitted s.facade)).openWork.file &&
      !(s.onRequest (Request.admitted s.facade)).openWork.removable) = false := h
  generalize s.onRequest (Request.admitted s.facade) = v at hadmit hfree
  have hremove : Passes (removeFile sysError) v.openWork [.free, .free] (.ok ())
      v.openWork.dropFile := by
    refine Passes.look ?_
    rw [hfree]
    exact Passes.act .free .free _ _
  have hrun := Passes.bind hadmit (Passes.bind (Passes.act .free .holding Owner.openWork v)
    (hremove.protect (Passes.act .holding .free Owner.finishWork _) (total_act _ _ _)))
  refine ⟨v.openWork.dropFile.finishWork, ?_⟩
  rw [Owner.fileExposure, List.map_append, List.map_replicate, List.append_assoc]
  exact hrun

theorem passes_stuck (sysError : E) (hstuck : (s.file && !s.removable) = true) :
    ∃ l t, l.length = s.request.admitPoints s.facade + 5 ∧
      Passes (removeTemporary sysError) s l (.error (.raised sysError)) t := by
  have hadmit : Strolls (look fun s => admitCleanup s.facade : Cleaning Owner E Unit) s _ _ :=
    Passes.look (strolls_admitCleanup s.facade s)
  have hremove : Passes (removeFile sysError) (s.onRequest (Request.admitted s.facade)).openWork
      ([.free] ++ []) (.error (.raised sysError))
        (s.onRequest (Request.admitted s.facade)).openWork := by
    have hfile : ((s.onRequest (Request.admitted s.facade)).openWork.file &&
        !(s.onRequest (Request.admitted s.facade)).openWork.removable) = true := hstuck
    refine Passes.look ?_
    rw [if_pos hfile]
    exact (Passes.point .free _).bind (.raise _ _)
  refine ⟨_, _, ?_, Passes.bind hadmit (Passes.bind (Passes.act .free .holding Owner.openWork _)
    (hremove.protect (Passes.act .holding .free Owner.finishWork _) (total_act _ _ _)))⟩
  simp

/-- The points at which a cleanup alone knows of something that it has to release. -/
def Cleanup.exposure (s : Owner) : Cleanup → List Bool
  | .connection => s.exposure
  | .temporary => s.fileExposure
  | _ => []

theorem getElem?_sites (l : List Bool) (m k : ℕ) :
    (l.map Site.of ++ List.replicate m .free)[k]? = some .holding ↔ l[k]? = some true := by
  by_cases hk : k < l.length
  · rw [List.getElem?_append_left (by simpa using hk), List.getElem?_map]
    rcases l[k]? with _ | _ | _ <;> simp [Site.of]
  · rw [List.getElem?_append_right (by simpa using hk),
      List.getElem?_eq_none (Nat.not_lt.mp hk), List.getElem?_replicate]
    split <;> simp

end DuckdbMl.Interruption
