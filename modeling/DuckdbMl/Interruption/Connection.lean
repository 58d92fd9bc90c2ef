import DuckdbMl.Interruption.Children

/-!
# The cleanup of a connection

What an interruption leaves of the destruction of a connection is known to it, and is destroyed by
the second run, but for what the code has taken out of the cache or out of the request.

## Main definitions

* `Tracked`: what is not closed is known to the connection
* `gone`, `destroyed`: what the destruction of a connection leaves

## Main results

* `meets_destroyConnection`: an interruption loses nothing, or what was held
* `destroyed_of_left`: the second run finishes when nothing was held
-/

namespace DuckdbMl.Interruption

open Effects

variable {E : Type} {s t : Owner} {i : ℕ}

/-- What a child is when it has been destroyed. -/
def Child.shut (c : Child) : Child :=
  (if c.appender then c.closeAppender else c.closePrepared).mark

/-- A child is known to the connection. -/
def Owner.Knows (s : Owner) (i : ℕ) : Prop := i ∈ s.prepared ∨ i ∈ s.cached

/-- **What is not closed is known to the connection**: its children through its lists, and the
native request through the request. -/
structure Tracked (s : Owner) : Prop where
  nodup : s.prepared.Nodup ∧ s.cached.Nodup
  child : ∀ i, s.Knows i ∨ (s.children i).shut = s.children i
  resultOwner : ∀ i, s.resultOwner = some i → s.Knows i
  facade : ∀ i, s.Knows i → (s.children i).facade = true → s.leased = true
  cached : ∀ i ∈ s.cached, i ∉ s.prepared ∧ (s.children i).appender = false ∧
    (s.children i).status ≠ .closed
  request : s.nativeRequest.slot = true → s.leased = true ∧ s.request.native = true
  live : s.request.native = true → s.nativeRequest.slot = true
  installed : s.nativeRequest.installed = true → s.nativeRequest.slot = true

/-- The request that the destruction leaves. -/
def Request.detached (r : Request) : Request := r.joined.dropNative

def NativeRequest.retired (n : NativeRequest) : NativeRequest := n.uninstall.dispose

/-- What the destruction of a connection leaves that knows of all it has. -/
def gone (s : Owner) : Owner :=
  { s with
    children := fun i => (s.children i).shut
    prepared := []
    cached := []
    resultOwner := none
    status := .closed
    busy := false
    registered := false
    native := s.native.finish
    request := if s.leased then s.request.detached else s.request
    nativeRequest := s.nativeRequest.retired
    failure := if s.prepared.any fun i => (s.children i).appender then s.failure <|> some discarded
      else s.failure }

/-- Nothing is lost, and the destruction reaches the same state as before. -/
structure Whole (s t : Owner) : Prop where
  tracked : Tracked t
  gone : gone t = gone s

theorem Child.shut_shut (c : Child) : c.shut.shut = c.shut := by
  rcases c with ⟨_ | _, _, _, _, n, _, _, _ | _⟩ <;>
    simp [shut, closeAppender, closePrepared, mark, Native.finish_finish]

theorem Child.shut_mark (c : Child) : c.mark.shut = c.shut := by
  rcases c with ⟨_ | _, _, _, _, n, _, _, _⟩ <;> rfl

/-- A change to children that are known, and to nothing that the connection knows them by. -/
theorem Tracked.of_same (h : Tracked s) (hprepared : t.prepared = s.prepared)
    (hcached : t.cached = s.cached) (hleased : t.leased = s.leased)
    (hrequest : t.nativeRequest = s.nativeRequest)
    (hnative : t.request.native = s.request.native)
    (howner : ∀ j, t.resultOwner = some j → s.resultOwner = some j)
    (hchild : ∀ j, (t.children j).facade = (s.children j).facade ∧
      (t.children j).appender = (s.children j).appender ∧
        (j ∈ s.cached → (t.children j).status = (s.children j).status) ∧
          (s.Knows j ∨ t.children j = s.children j)) : Tracked t := by
  have hknows : ∀ j, t.Knows j ↔ s.Knows j := by
    intro j
    rw [Owner.Knows, Owner.Knows, hprepared, hcached]
  constructor
  · rw [hprepared, hcached]
    exact h.nodup
  -- a child that has changed is known
  · intro j
    rw [hknows]
    rcases (hchild j).2.2.2 with hk | he
    · exact .inl hk
    · rw [he]
      exact h.child j
  · exact fun j hj => (hknows j).mpr (h.resultOwner j (howner j hj))
  · intro j hj hf
    rw [hleased]
    exact h.facade j ((hknows j).mp hj) ((hchild j).1 ▸ hf)
  · intro j hj
    have hj : j ∈ s.cached := hcached ▸ hj
    rw [hprepared, (hchild j).2.1, (hchild j).2.2.1 hj]
    exact h.cached j hj
  · rw [hrequest, hleased, hnative]
    exact h.request
  · rw [hrequest, hnative]
    exact h.live
  · rw [hrequest]
    exact h.installed

/-! ### One child -/

/-- What a cleanup makes of a child. -/
def Child.cleaned (c : Child) : Child := if c.appender then c.closeAppender else c.closePrepared

theorem Child.shut_cleaned (c : Child) : c.cleaned.shut = c.shut := by
  rcases c with ⟨_ | _, _, _, _, n, _, _, _ | _⟩ <;>
    simp [cleaned, shut, closeAppender, closePrepared, mark, Native.finish_finish]

theorem Child.appender_cleaned (c : Child) : c.cleaned.appender = c.appender := by
  rcases c with ⟨_ | _, _, _, _, n, _, _, _⟩ <;> rfl

theorem Child.facade_cleaned (c : Child) : c.cleaned.facade = c.facade := by
  rcases c with ⟨_ | _, _, _, _, n, _, _, _⟩ <;> rfl

/-- What the cleanup of a child leaves, field by field. -/
theorem cleaned_eq (i : ℕ) (s : Owner) : cleaned i s = { s with
    children := Function.update s.children i (s.children i).cleaned
    resultOwner := if s.resultOwner = some i then none else s.resultOwner
    request := s.request.admitted (s.children i).facade
    failure := if (s.children i).appender then s.failure <|> some discarded else s.failure } := by
  rw [cleaned, Child.cleaned]
  split <;> rfl

theorem any_appender_update {l : List ℕ} {c : Child} (hc : c.appender = (s.children i).appender) :
    (l.any fun j => (Function.update s.children i c j).appender) =
      l.any fun j => (s.children j).appender := by
  refine congrArg (List.any l) (funext fun j => ?_)
  by_cases hj : j = i
  · rw [hj, Function.update_self, hc]
  · rw [Function.update_of_ne hj]

theorem Request.detached_admitted (facade : Bool) (r : Request) :
    (r.admitted facade).detached = r.detached := by
  rw [admitted]
  split <;> rfl

theorem Request.native_admitted (facade : Bool) (r : Request) :
    (r.admitted facade).native = r.native := by
  rw [admitted]
  split <;> rfl

theorem shut_update {c : Child} (hc : c.shut = (s.children i).shut) (j : ℕ) :
    (Function.update s.children i c j).shut = (s.children j).shut := by
  by_cases hj : j = i
  · rw [hj, Function.update_self, hc]
  · rw [Function.update_of_ne hj]

/-- The failure of a transaction that a registered appender has poisoned. -/
theorem failure_cleaned (hi : (s.children i).appender = true → i ∈ s.prepared) :
    (if s.prepared.any fun j => (s.children j).appender then
        (if (s.children i).appender then s.failure <|> some discarded else s.failure) <|>
          some discarded
      else if (s.children i).appender then s.failure <|> some discarded else s.failure) =
      if s.prepared.any fun j => (s.children j).appender then s.failure <|> some discarded
      else s.failure := by
  cases ha : (s.children i).appender with
  | false => rfl
  | true =>
    have hany : s.prepared.any (fun j => (s.children j).appender) = true :=
      List.any_eq_true.mpr ⟨i, hi ha, ha⟩
    rw [hany]
    cases s.failure <;> rfl

theorem Child.status_cleaned (c : Child) : c.cleaned.status = c.status := by
  rcases c with ⟨_ | _, _, _, _, n, _, _, _⟩ <;> rfl

theorem Tracked.prepared_of_appender (h : Tracked s) (hi : s.Knows i)
    (ha : (s.children i).appender = true) : i ∈ s.prepared := by
  rcases hi with hp | hc
  · exact hp
  · rw [(h.cached i hc).2.1] at ha
    cases ha

theorem whole_cleaned (h : Tracked s) (hi : s.Knows i) : Whole s (cleaned i s) := by
  -- a facade admits the cleanup, which makes no difference to a request that is detached
  have hrequest : (if s.leased then (s.request.admitted (s.children i).facade).detached
      else s.request.admitted (s.children i).facade) =
        if s.leased then s.request.detached else s.request := by
    cases hl : s.leased with
    | true => exact Request.detached_admitted _ _
    | false =>
      have hf : (s.children i).facade = false := by
        refine eq_false_of_ne_true fun hf => ?_
        rw [h.facade i hi hf] at hl
        cases hl
      rw [hf]
      rfl
  -- only the child itself changes
  have hother : ∀ j, j ≠ i → (cleaned i s).children j = s.children j := fun j hj => by
    rw [cleaned_eq]
    exact Function.update_of_ne hj ..
  have hself : (cleaned i s).children i = (s.children i).cleaned := by
    rw [cleaned_eq]
    exact Function.update_self ..
  constructor
  · refine h.of_same ?_ ?_ ?_ ?_ ?_ ?_ fun j => ?_
    · rw [cleaned_eq]
    · rw [cleaned_eq]
    · rw [cleaned_eq]
    · rw [cleaned_eq]
    · rw [cleaned_eq]
      exact Request.native_admitted _ _
    · intro j hj
      rw [cleaned_eq] at hj
      dsimp only at hj
      split at hj
      · cases hj
      · exact hj
    · by_cases hj : j = i
      · subst hj
        rw [hself, Child.facade_cleaned, Child.appender_cleaned, Child.status_cleaned]
        exact ⟨rfl, rfl, fun _ => rfl, .inl hi⟩
      · rw [hother j hj]
        exact ⟨rfl, rfl, fun _ => rfl, .inr rfl⟩
  · rw [cleaned_eq, gone, gone]
    dsimp only
    rw [any_appender_update (Child.appender_cleaned _),
      failure_cleaned (h.prepared_of_appender hi), hrequest,
      funext fun j => shut_update (Child.shut_cleaned _) j]

theorem Whole.trans {u : Owner} (h : Whole s t) (h' : Whole t u) : Whole s u :=
  ⟨h'.tracked, h'.gone.trans h.gone⟩

theorem whole_mark (h : Tracked s) (hi : i ∈ s.prepared) : Whole s (s.update i Child.mark) := by
  constructor
  · refine h.of_same rfl rfl rfl rfl rfl (fun _ hj => hj) fun j => ?_
    by_cases hj : j = i
    · subst hj
      rw [Owner.children_update_self]
      exact ⟨rfl, rfl, fun hc => absurd hi (h.cached j hc).1, .inl (.inl hi)⟩
    · rw [Owner.children_update_of_ne hj]
      exact ⟨rfl, rfl, fun _ => rfl, .inr rfl⟩
  · rw [gone, gone, Owner.update]
    dsimp only
    rw [any_appender_update (rfl : (s.children i).mark.appender = (s.children i).appender),
      funext fun j => shut_update (Child.shut_mark _) j]

/-- A child that has been closed may be forgotten. -/
theorem whole_dropChild (h : Tracked s) (hshut : (s.children i).shut = s.children i)
    (howner : s.resultOwner ≠ some i)
    (hfailure : (s.children i).appender = true → s.failure.isSome = true) :
    Whole s (s.dropChild i) := by
  have hmem : ∀ j, j ∈ s.prepared.filter (· ≠ i) ↔ j ∈ s.prepared ∧ j ≠ i := by
    simp [List.mem_filter]
  have hknows : ∀ j, j ≠ i → s.Knows j → (s.dropChild i).Knows j := fun j hj hk =>
    hk.imp_left fun hp => (hmem j).mpr ⟨hp, hj⟩
  have hback : ∀ j, (s.dropChild i).Knows j → s.Knows j := fun j hk =>
    hk.imp_left fun hp => ((hmem j).mp hp).1
  constructor
  · constructor
    · exact ⟨h.nodup.1.filter _, h.nodup.2⟩
    -- the child is forgotten, but has been shut
    · intro j
      by_cases hj : j = i
      · exact .inr (hj ▸ hshut)
      · exact (h.child j).imp_left (hknows j hj)
    · intro j hj
      refine hknows j (fun he => howner ?_) (h.resultOwner j hj)
      rw [← he]
      exact hj
    · exact fun j hj => h.facade j (hback j hj)
    · exact fun j hj => ⟨fun hp => (h.cached j hj).1 ((hmem j).mp hp).1, (h.cached j hj).2⟩
    · exact h.request
    · exact h.live
    · exact h.installed
  -- an appender that is forgotten has left its failure
  · have hany : (if (s.prepared.filter (· ≠ i)).any fun j => (s.children j).appender then
        s.failure <|> some discarded else s.failure) =
        if s.prepared.any fun j => (s.children j).appender then s.failure <|> some discarded
        else s.failure := by
      by_cases ha : (s.children i).appender = true
      · obtain ⟨f, hf⟩ := Option.isSome_iff_exists.mp (hfailure ha)
        rw [hf]
        split <;> split <;> rfl
      · congr 1
        rw [List.any_filter]
        refine congrArg (· = true) (congrArg (List.any s.prepared) (funext fun j => ?_))
        by_cases hj : j = i
        · simp [hj, ha]
        · simp [hj]
    rw [gone, gone, Owner.dropChild]
    dsimp only
    rw [hany]

/-- The destruction of a known child. -/
theorem whole_closeOne (h : Tracked s) (hi : i ∈ s.prepared) :
    Whole s ((cleaned i s).update i Child.mark) ∧ Whole s (closeOne i s) := by
  have hcleaned := whole_cleaned h (.inl hi)
  have hprepared : i ∈ (cleaned i s).prepared := by
    rw [cleaned_eq]
    exact hi
  -- cleaned, then marked, and forgotten at last
  have hmark := hcleaned.trans (whole_mark hcleaned.tracked hprepared)
  have hself : (cleaned i s).children i = (s.children i).cleaned := by
    rw [cleaned_eq]
    exact Function.update_self ..
  have hshut : ((cleaned i s).update i Child.mark).children i = (s.children i).shut := by
    rw [Owner.children_update_self, hself]
    rfl
  refine ⟨hmark, hmark.trans (whole_dropChild hmark.tracked ?_ ?_ ?_)⟩
  · rw [hshut, Child.shut_shut]
  · rw [cleaned_eq]
    change (if s.resultOwner = some i then none else s.resultOwner) ≠ some i
    split
    · exact nofun
    · assumption
  · intro ha
    have ha : (s.children i).appender = true := by
      rw [Owner.children_update_self, hself] at ha
      exact (Child.appender_cleaned _).symm.trans ha
    change (cleaned i s).failure.isSome = true
    rw [cleaned_eq]
    dsimp only
    rw [if_pos ha]
    cases s.failure <;> rfl

/-! ### Lists of children -/

theorem prepared_closeOne (i : ℕ) (s : Owner) :
    (closeOne i s).prepared = s.prepared.filter (· ≠ i) := by
  change (cleaned i s).prepared.filter (· ≠ i) = _
  rw [cleaned_eq]

theorem mem_prepared_closeOne {j : ℕ} (hj : j ∈ s.prepared) (hne : j ≠ i) :
    j ∈ (closeOne i s).prepared := by
  rw [prepared_closeOne]
  exact List.mem_filter.mpr ⟨hj, by simpa using hne⟩

theorem whole_closeEach {l : List ℕ} (h : Tracked s) (hl : ∀ i ∈ l, i ∈ s.prepared)
    (hnodup : l.Nodup) : Whole s (closeEach l s) := by
  induction l generalizing s with
  | nil => exact ⟨h, rfl⟩
  | cons i rest ih =>
    obtain ⟨hi, hrest⟩ := List.nodup_cons.mp hnodup
    have hone := (whole_closeOne h (hl i List.mem_cons_self)).2
    refine hone.trans (ih hone.tracked (fun j hj => ?_) hrest)
    exact mem_prepared_closeOne (hl j (List.mem_cons_of_mem _ hj)) fun he => hi (he ▸ hj)

/-- **An interrupted destruction of known children loses nothing.** -/
theorem whole_of_broken {l : List ℕ} {σ : Site} (hbroken : Broken .free l s σ t) (h : Tracked s)
    (hl : ∀ i ∈ l, i ∈ s.prepared) (hnodup : l.Nodup) : σ = .free ∧ Whole s t := by
  induction hbroken with
  | closed => exact ⟨rfl, whole_closeEach h hl hnodup⟩
  | cleaned => exact ⟨rfl, whole_cleaned h (.inl (hl _ List.mem_cons_self))⟩
  | marked => exact ⟨by simp, (whole_closeOne h (hl _ List.mem_cons_self)).1⟩
  | dropped => exact ⟨by simp, (whole_closeOne h (hl _ List.mem_cons_self)).2⟩
  | @later i rest s t σ _ ih =>
    obtain ⟨hi, hrest⟩ := List.nodup_cons.mp hnodup
    have hone := (whole_closeOne h (hl i List.mem_cons_self)).2
    obtain ⟨hσ, hwhole⟩ := ih hone.tracked (fun j hj => mem_prepared_closeOne
      (hl j (List.mem_cons_of_mem _ hj)) fun he => hi (he ▸ hj)) hrest
    exact ⟨hσ, hone.trans hwhole⟩

/-! ### The cache -/

def Owner.withCache (cached : List ℕ) (s : Owner) : Owner := { s with cached := cached }

theorem closeOne_withCache (c : List ℕ) (i : ℕ) (s : Owner) :
    closeOne i (s.withCache c) = (closeOne i s).withCache c := by
  rw [closeOne, closeOne, cleaned_eq, cleaned_eq]
  rfl

theorem closeEach_withCache (c l : List ℕ) (s : Owner) :
    closeEach l (s.withCache c) = (closeEach l s).withCache c := by
  induction l generalizing s with
  | nil => rfl
  | cons i rest ih => rw [closeEach, closeOne_withCache, ih, closeEach]

theorem filter_ne_of_not_mem {l : List ℕ} (hi : i ∉ l) : l.filter (· ≠ i) = l :=
  List.filter_eq_self.mpr fun j hj => by simpa using fun he : j = i => hi (he ▸ hj)

/-- The fields of a state in which a child has been destroyed that no list of the connection has. -/
theorem closeOne_eq (hi : i ∉ s.prepared) : closeOne i s = { s with
    children := Function.update s.children i (s.children i).shut
    resultOwner := if s.resultOwner = some i then none else s.resultOwner
    request := s.request.admitted (s.children i).facade
    failure := if (s.children i).appender then s.failure <|> some discarded else s.failure } := by
  rw [closeOne, cleaned_eq, Owner.dropChild, Owner.update]
  dsimp only
  rw [filter_ne_of_not_mem hi, Function.update_self, Function.update_idem]
  rfl

/-- The destruction of the first statement of a cache. -/
theorem whole_closeCached {rest : List ℕ} (h : Tracked s) (hc : s.cached = i :: rest) :
    Whole s ((closeOne i s).withCache rest) := by
  have hcached : ∀ j, j ∈ s.cached ↔ j = i ∨ j ∈ rest := by
    intro j
    rw [hc]
    exact List.mem_cons
  have hi : i ∈ s.cached := (hcached i).mpr (.inl rfl)
  obtain ⟨hprepared, happender, -⟩ := h.cached i hi
  have hnodup := h.nodup.2
  rw [hc] at hnodup
  obtain ⟨hirest, hrest⟩ := List.nodup_cons.mp hnodup
  have hclean := whole_cleaned h (.inr hi)
  rw [closeOne_eq hprepared]
  have hknows : ∀ j, j ≠ i → s.Knows j → j ∈ s.prepared ∨ j ∈ rest := fun j hj hk =>
    hk.imp_right fun hm => ((hcached j).mp hm).resolve_left hj
  -- the statement of the entry is now closed for good; the others are as they were
  have hother : ∀ j, j ≠ i → Function.update s.children i (s.children i).shut j = s.children j :=
    fun j hj => Function.update_of_ne hj ..
  constructor
  · constructor
    · exact ⟨h.nodup.1, hrest⟩
    · intro j
      change (j ∈ s.prepared ∨ j ∈ rest) ∨
        (Function.update s.children i (s.children i).shut j).shut =
          Function.update s.children i (s.children i).shut j
      by_cases hj : j = i
      · rw [hj, Function.update_self]
        exact .inr (Child.shut_shut _)
      · rw [hother j hj]
        exact (h.child j).imp_left (hknows j hj)
    · intro j hj
      change (if s.resultOwner = some i then none else s.resultOwner) = some j at hj
      split at hj
      · cases hj
      · rename_i hne
        exact hknows j (fun he => hne (he ▸ hj)) (h.resultOwner j hj)
    · intro j hj hf
      have hj : j ∈ s.prepared ∨ j ∈ rest := hj
      have hne : j ≠ i := by
        rintro rfl
        exact hj.elim hprepared hirest
      refine h.facade j (hj.imp_right fun hm => (hcached j).mpr (.inr hm)) ?_
      rw [← hother j hne]
      exact hf
    · intro j hj
      have hne : j ≠ i := fun he => hirest (he ▸ hj)
      change j ∉ s.prepared ∧
        (Function.update s.children i (s.children i).shut j).appender = false ∧
          (Function.update s.children i (s.children i).shut j).status ≠ .closed
      rw [hother j hne]
      exact h.cached j ((hcached j).mpr (.inr hj))
    · intro hs
      obtain ⟨hl, hn⟩ := h.request hs
      refine ⟨hl, ?_⟩
      exact (Request.native_admitted _ _).trans hn
    · intro hn
      exact h.live ((Request.native_admitted _ _).symm.trans hn)
    · exact h.installed
  -- what is left is destroyed to the same end, with or without this one
  · refine Eq.trans ?_ hclean.gone
    have hshut : (fun j => (Function.update s.children i (s.children i).shut j).shut) =
        fun j => (Function.update s.children i (s.children i).cleaned j).shut := by
      refine funext fun j => ?_
      by_cases hj : j = i
      · rw [hj, Function.update_self, Function.update_self, Child.shut_shut, Child.shut_cleaned]
      · rw [hother j hj, Function.update_of_ne hj]
    have happenders : (s.children i).shut.appender = (s.children i).appender := by
      rw [happender]
      exact Child.appender_cleaned _ |>.trans happender
    rw [cleaned_eq, gone, gone, Owner.withCache]
    dsimp only
    rw [hshut, any_appender_update happenders, any_appender_update (Child.appender_cleaned _)]

/-- The destruction of all statements of a cache. -/
theorem whole_closeCache {l : List ℕ} (h : Tracked s) (hl : s.cached = l) :
    Whole s (closeEach l (s.withCache [])) := by
  induction l generalizing s with
  | nil =>
    have he : s.withCache [] = s := by rw [Owner.withCache, ← hl]
    rw [closeEach, he]
    exact ⟨h, rfl⟩
  | cons i rest ih =>
    have hone := whole_closeCached h hl
    have hrest := hone.trans (ih hone.tracked rfl)
    rw [closeEach, closeOne_withCache]
    exact hrest

/-- Something is left that neither a list nor the request knows of. -/
inductive Lost (t : Owner) : Prop
  | child (i : ℕ) : ¬ t.Knows i → (t.children i).status ≠ .closed → Lost t
  | request : t.request.native = false → t.nativeRequest.slot = true → Lost t

theorem knows_closeOne {j : ℕ} (h : (closeOne i s).Knows j) : s.Knows j := by
  refine h.imp ?_ ?_
  · rw [prepared_closeOne]
    exact fun hj => (List.mem_filter.mp hj).1
  · intro hj
    have hcached : (closeOne i s).cached = s.cached := by
      rw [closeOne, cleaned_eq]
      rfl
    exact hcached ▸ hj

theorem children_closeOne (i : ℕ) (s : Owner) :
    (closeOne i s).children = Function.update s.children i (s.children i).shut := by
  rw [closeOne, cleaned_eq, Owner.dropChild, Owner.update]
  dsimp only
  rw [Function.update_self, Function.update_idem]
  rfl

/-- Children that no list of the connection has, and that are not closed. -/
def Adrift (l : List ℕ) (s : Owner) : Prop :=
  ∀ i ∈ l, ¬ s.Knows i ∧ (s.children i).status ≠ .closed

theorem Adrift.closeOne {rest : List ℕ} (h : Adrift (i :: rest) s) (hi : i ∉ rest) :
    Adrift rest (closeOne i s) := by
  intro j hj
  obtain ⟨hk, hs⟩ := h j (List.mem_cons_of_mem _ hj)
  refine ⟨fun hknows => hk (knows_closeOne hknows), ?_⟩
  rw [children_closeOne, Function.update_of_ne fun he : j = i => hi (he ▸ hj)]
  exact hs

/-- **An interrupted destruction of children that are adrift** has closed them all, or has lost
one. -/
theorem lost_of_broken {l : List ℕ} {σ : Site} (hbroken : Broken .holding l s σ t)
    (h : Adrift l s) (hnodup : l.Nodup) :
    σ = .free ∧ t = closeEach l s ∨ σ = .holding ∧ Lost t := by
  induction hbroken with
  | closed => exact .inl ⟨rfl, rfl⟩
  -- cleaned but not marked: nobody knows it, and it stays open
  | @cleaned i rest s =>
    obtain ⟨hk, hs⟩ := h i List.mem_cons_self
    refine .inr ⟨rfl, .child i (fun hknows => hk ?_) ?_⟩
    · rw [cleaned_eq] at hknows
      exact hknows
    · rw [cleaned_eq]
      change (Function.update s.children i (s.children i).cleaned i).status ≠ .closed
      rw [Function.update_self, Child.status_cleaned]
      exact hs
  -- marked: what comes after it is lost, if there is anything
  | @marked i rest s =>
    have hi := (h i List.mem_cons_self).1
    have hdrop : closeOne i s = (Interruption.cleaned i s).update i Child.mark := by
      have hprepared : ((Interruption.cleaned i s).update i Child.mark).prepared = s.prepared := by
        rw [cleaned_eq]
        rfl
      rw [Interruption.closeOne, Owner.dropChild, hprepared,
        filter_ne_of_not_mem fun hp => hi (.inl hp), ← hprepared]
    rw [← hdrop]
    cases rest with
    | nil => exact .inl ⟨rfl, rfl⟩
    | cons j rest =>
      obtain ⟨hk, hs⟩ := h.closeOne (List.nodup_cons.mp hnodup).1 j List.mem_cons_self
      exact .inr ⟨rfl, .child j hk hs⟩
  | @dropped i rest s =>
    cases rest with
    | nil => exact .inl ⟨rfl, rfl⟩
    | cons j rest =>
      obtain ⟨hk, hs⟩ := h.closeOne (List.nodup_cons.mp hnodup).1 j List.mem_cons_self
      exact .inr ⟨rfl, .child j hk hs⟩
  -- a later child is cut
  | @later i rest s t σ _ ih =>
    obtain ⟨hi, hrest⟩ := List.nodup_cons.mp hnodup
    exact ih (h.closeOne hi) hrest

/-- Nothing is lost, or something was held. -/
def Left (s : Owner) (σ : Site) (t : Owner) : Prop :=
  σ = .free ∧ Whole s t ∨ σ = .holding ∧ Lost t

theorem runs_destroyCached (s : Owner) : Runs (destroyCached : Cleaning Owner E Unit) s (.ok ())
    (closeEach s.cached (s.withCache [])) :=
  .look ((Runs.act _ _ _ _).bind (runs_destroyEach _ _ _))

/-- **An interrupted destruction of the cache** may lose a statement. -/
theorem meets_destroyCached (h : Tracked s) :
    Meets (destroyCached : Cleaning Owner E Unit) s (closeEach s.cached (s.withCache []))
      (Left s) := by
  have hadrift : Adrift s.cached (s.withCache []) := fun i hi =>
    ⟨fun hk => hk.elim (h.cached i hi).1 List.not_mem_nil, (h.cached i hi).2.2⟩
  have hempty : Left s (if s.cached.isEmpty then .free else .holding) s.emptyCache := by
    cases hc : s.cached with
    | nil => exact .inl ⟨rfl, whole_closeCache h hc⟩
    | cons i rest =>
      obtain ⟨hk, hs⟩ := hadrift i (hc ▸ List.mem_cons_self)
      exact .inr ⟨rfl, .child i hk hs⟩
  refine .look ((Meets.act (.inl ⟨rfl, h, rfl⟩) hempty).bind ?_)
  refine (meets_destroyEach .holding s.cached (s.withCache [])).mono fun σ t hbroken => ?_
  rcases lost_of_broken hbroken hadrift h.nodup.2 with ⟨hσ, rfl⟩ | hlost
  · exact .inl ⟨hσ, whole_closeCache h rfl⟩
  · exact .inr hlost

/-! ### The request -/

theorem Tracked.onRequest {f : Request → Request} (h : Tracked s)
    (hf : (f s.request).native = s.request.native) : Tracked (s.onRequest f) :=
  h.of_same rfl rfl rfl rfl hf (fun _ hj => hj) fun _ => ⟨rfl, rfl, fun _ => rfl, .inr rfl⟩

theorem whole_onRequest {f : Request → Request} (h : Tracked s) (hl : s.leased = true)
    (hf : (f s.request).native = s.request.native)
    (hdetached : (f s.request).detached = s.request.detached) : Whole s (s.onRequest f) := by
  refine ⟨h.onRequest hf, ?_⟩
  rw [gone, gone, Owner.onRequest]
  dsimp only
  rw [hl, if_pos rfl, hdetached]
  rfl

/-- What the detachment of a native request leaves. -/
def detachedRequest (s : Owner) : Owner :=
  if s.request.native then
    (s.onRequest Request.detached).onNativeRequest NativeRequest.retired
  else s.onRequest Request.detached

theorem NativeRequest.slot_retired (n : NativeRequest) : n.retired.slot = false := by
  rcases n with ⟨_ | _, _ | _, _⟩ <;> rfl

theorem NativeRequest.retired_retired (n : NativeRequest) : n.retired.retired = n.retired := by
  rcases n with ⟨_ | _, _ | _, _⟩ <;> rfl

theorem NativeRequest.retired_of_not_slot {n : NativeRequest} (h : n.slot = false) :
    n.retired = n := by
  rcases n with ⟨_ | _, _ | _, _⟩
  · rfl
  · rfl
  · cases h
  · cases h

theorem NativeRequest.installed_retired {n : NativeRequest}
    (h : n.installed = true → n.slot = true) : n.retired.installed = false := by
  rcases n with ⟨_ | _, _ | _, _⟩
  · rfl
  · cases h rfl
  · rfl
  · rfl

theorem NativeRequest.slot_uninstall (n : NativeRequest) : n.uninstall.slot = n.slot := by
  rcases n with ⟨_ | _, _ | _, _⟩ <;> rfl

theorem runs_detachRequest (s : Owner) :
    Runs (detachRequest : Cleaning Owner E Unit) s (.ok ()) (detachedRequest s) := by
  have hjoin : Runs (joinController : Cleaning Owner E Unit) s (.ok ())
      (s.onRequest Request.joined) :=
    (@meets_joinController E s (fun _ _ => True) trivial trivial trivial).full
  refine hjoin.bind (.look ((Runs.act _ _ _ _).bind ?_))
  rw [detachedRequest]
  cases hn : s.request.native with
  | false =>
    have hn : (s.onRequest Request.joined).request.native = false := hn
    rw [hn]
    exact .pure _
  | true =>
    have hn : (s.onRequest Request.joined).request.native = true := hn
    rw [hn]
    exact (Runs.act _ _ _ _).bind (.act _ _ _ _)

theorem whole_detachedRequest (h : Tracked s) (hl : s.leased = true) :
    Whole s (detachedRequest s) := by
  have hdetached : s.request.detached.detached = s.request.detached := rfl
  rw [detachedRequest]
  cases hn : s.request.native with
  | false =>
    have hdrop : s.request.detached.native = s.request.native := hn.symm
    exact whole_onRequest h hl hdrop hdetached
  | true =>
    have hslot := NativeRequest.slot_retired s.nativeRequest
    have hinstalled := NativeRequest.installed_retired h.installed
    rw [if_pos rfl]
    refine ⟨⟨h.nodup, h.child, h.resultOwner, h.facade, h.cached, fun hs => ?_, fun hs => ?_,
      fun hs => ?_⟩, ?_⟩
    · exact absurd (hslot.symm.trans hs) Bool.false_ne_true
    · cases hs
    · exact absurd (hinstalled.symm.trans hs) Bool.false_ne_true
    · rw [gone, gone, Owner.onNativeRequest, Owner.onRequest]
      dsimp only
      rw [hl, if_pos rfl, hdetached, NativeRequest.retired_retired]
      rfl

/-- **An interrupted detachment** may lose the native request. -/
theorem meets_detachRequest (h : Tracked s) (hl : s.leased = true) :
    Meets (detachRequest : Cleaning Owner E Unit) s (detachedRequest s) (Left s) := by
  have hstopped := whole_onRequest (f := Request.stopController) h hl rfl rfl
  have hjoined := whole_onRequest (f := Request.joined) h hl rfl rfl
  refine (meets_joinController (.inl ⟨rfl, h, rfl⟩) (.inl ⟨rfl, hstopped⟩)
    (.inl ⟨rfl, hjoined⟩)).bind (.look ?_)
  have hdetach := whole_detachedRequest h hl
  rw [detachedRequest] at hdetach ⊢
  cases hn : s.request.native with
  | false =>
    have hn' : (s.onRequest Request.joined).request.native = false := hn
    rw [hn] at hdetach
    rw [hn']
    exact (Meets.act (.inl ⟨rfl, hjoined⟩) (.inl ⟨rfl, hdetach⟩)).bind (.pure _)
  | true =>
    have hn' : (s.onRequest Request.joined).request.native = true := hn
    have hslot : s.nativeRequest.slot = true := h.live hn
    rw [hn] at hdetach
    rw [hn']
    refine (Meets.act (.inl ⟨rfl, hjoined⟩) (.inr ⟨rfl, .request rfl hslot⟩)).bind
      ((Meets.act (.inr ⟨rfl, .request rfl hslot⟩) (.inr ⟨rfl, .request rfl ?_⟩)).bind
        (.act (.inr ⟨rfl, .request rfl ?_⟩) (.inl ⟨rfl, hdetach⟩)))
    · exact (NativeRequest.slot_uninstall _).trans hslot
    · exact (NativeRequest.slot_uninstall _).trans hslot

/-! ### The connection -/

def detachedOwner (s : Owner) : Owner := if s.leased then detachedRequest s else s

theorem runs_detachOwnerRequest (s : Owner) :
    Runs (detachOwnerRequest : Cleaning Owner E Unit) s (.ok ()) (detachedOwner s) := by
  refine .look ?_
  rw [detachedOwner]
  cases s.leased with
  | false => exact .pure s
  | true => exact runs_detachRequest s

theorem whole_detachedOwner (h : Tracked s) : Whole s (detachedOwner s) := by
  rw [detachedOwner]
  cases hl : s.leased with
  | false => exact ⟨h, rfl⟩
  | true => exact whole_detachedRequest h hl

theorem meets_detachOwnerRequest (h : Tracked s) :
    Meets (detachOwnerRequest : Cleaning Owner E Unit) s (detachedOwner s) (Left s) := by
  refine .look ?_
  rw [detachedOwner]
  cases hl : s.leased with
  | false => exact .pure s
  | true => exact meets_detachRequest h hl

/-- After the detachment nothing is installed. -/
theorem installed_detachedOwner (h : Tracked s) :
    (detachedOwner s).nativeRequest.installed = false ∧
      (detachedOwner s).nativeRequest.slot = false := by
  have hslot : s.leased = false ∨ s.request.native = false → s.nativeRequest.slot = false := by
    intro ho
    refine eq_false_of_ne_true fun hs => ?_
    obtain ⟨hl, hn⟩ := h.request hs
    rcases ho with ho | ho
    · rw [hl] at ho
      cases ho
    · rw [hn] at ho
      cases ho
  have hinstalled : s.nativeRequest.slot = false → s.nativeRequest.installed = false := fun hs =>
    eq_false_of_ne_true fun hi => by
      rw [h.installed hi] at hs
      cases hs
  rw [detachedOwner, detachedRequest]
  cases hl : s.leased with
  | false => exact ⟨hinstalled (hslot (.inl hl)), hslot (.inl hl)⟩
  | true =>
    cases hn : s.request.native with
    | false => exact ⟨hinstalled (hslot (.inr hn)), hslot (.inr hn)⟩
    | true => exact ⟨NativeRequest.installed_retired h.installed, NativeRequest.slot_retired _⟩

theorem whole_closeConnection (h : Tracked s) (hi : s.nativeRequest.installed = false) :
    Whole s s.closeConnection := by
  refine ⟨h.of_same rfl rfl rfl rfl rfl (fun _ hj => hj)
    fun _ => ⟨rfl, rfl, fun _ => rfl, .inr rfl⟩, ?_⟩
  rw [gone, gone, Owner.closeConnection]
  dsimp only
  rw [Native.finish_clear, hi, Bool.and_false, Bool.or_false]

theorem whole_finishConnection (h : Tracked s) (hi : s.nativeRequest.installed = false) :
    Whole s s.finishConnection := by
  refine ⟨h.of_same rfl rfl rfl rfl rfl (fun _ hj => hj)
    fun _ => ⟨rfl, rfl, fun _ => rfl, .inr rfl⟩, ?_⟩
  rw [gone, gone, Owner.finishConnection]
  dsimp only
  rw [Native.finish_finish, hi, Bool.and_false, Bool.or_false]

/-- What the native parts of a connection leave. -/
def detachedClosed (s : Owner) : Owner := (detachedOwner s).closeConnection.finishConnection

theorem runs_detachedClosed (s : Owner) :
    Runs (do
      detachOwnerRequest
      releaseNative Owner.closeConnection Owner.finishConnection : Cleaning Owner E Unit) s (.ok ())
      (detachedClosed s) :=
  (runs_detachOwnerRequest s).bind ((Runs.act _ _ _ _).protect (.act _ _ _ _))

theorem whole_detachedClosed (h : Tracked s) : Whole s (detachedClosed s) := by
  have hdetached := whole_detachedOwner h
  have hinstalled := (installed_detachedOwner h).1
  have hclose := whole_closeConnection hdetached.tracked hinstalled
  exact (hdetached.trans hclose).trans (whole_finishConnection hclose.tracked hinstalled)

theorem meets_detachedClosed (h : Tracked s) :
    Meets (do
      detachOwnerRequest
      releaseNative Owner.closeConnection Owner.finishConnection : Cleaning Owner E Unit) s
      (detachedClosed s) (Left s) := by
  have hdetached := whole_detachedOwner h
  have hinstalled := (installed_detachedOwner h).1
  have hclose := hdetached.trans (whole_closeConnection hdetached.tracked hinstalled)
  have hclosed := whole_detachedClosed h
  have hbody : Meets (act .free .free Owner.closeConnection : Cleaning Owner E Unit)
      (detachedOwner s) (detachedOwner s).closeConnection
      (fun σ v => σ = .free ∧ Whole s v ∧ v.nativeRequest.installed = false) :=
    .act ⟨rfl, hdetached, hinstalled⟩ ⟨rfl, hclose, hinstalled⟩
  refine (meets_detachOwnerRequest h).bind
    (hbody.protect (.act (.inl ⟨rfl, hclose⟩) (.inl ⟨rfl, hclosed⟩)) ?_)
  rintro σ v ⟨rfl, hv, hi⟩
  exact ⟨v.finishConnection, .act _ _ _ _,
    .inl ⟨rfl, hv.trans (whole_finishConnection hv.tracked hi)⟩⟩

theorem whole_markClosed (h : Tracked s) : Whole s s.markClosed :=
  ⟨h.of_same rfl rfl rfl rfl rfl (fun _ hj => hj) fun _ => ⟨rfl, rfl, fun _ => rfl, .inr rfl⟩, rfl⟩

theorem whole_unregister (h : Tracked s) : Whole s s.unregister :=
  ⟨h.of_same rfl rfl rfl rfl rfl (fun _ hj => hj) fun _ => ⟨rfl, rfl, fun _ => rfl, .inr rfl⟩, rfl⟩

/-! ### What is lost stays lost -/

theorem lost_of_same (h : Lost s) (hprepared : t.prepared = s.prepared)
    (hcached : t.cached = s.cached) (hchildren : t.children = s.children)
    (hrequest : t.nativeRequest = s.nativeRequest)
    (hnative : s.request.native = false → t.request.native = false) : Lost t := by
  cases h with
  | child i hk hs =>
    refine .child i ?_ (hchildren ▸ hs)
    rw [Owner.Knows, hprepared, hcached]
    exact hk
  | request hn hslot => exact .request (hnative hn) (hrequest ▸ hslot)

theorem lost_detachedOwner (h : Lost s) : Lost (detachedOwner s) := by
  rw [detachedOwner]
  split
  · cases h with
    | child i hk hs =>
      rw [detachedRequest]
      split
      · exact .child i hk hs
      · exact .child i hk hs
    | request hn hslot =>
      rw [detachedRequest, hn, if_neg Bool.false_ne_true]
      exact .request rfl hslot
  · exact h

theorem lost_detachedClosed (h : Lost s) : Lost (detachedClosed s) :=
  lost_of_same (lost_detachedOwner h) rfl rfl rfl rfl id

theorem lost_closeEach {l : List ℕ} (h : Lost s) (hl : ∀ i ∈ l, s.Knows i) :
    Lost (closeEach l s) := by
  cases h with
  | child i hk hs =>
    -- the children closed are known, so that the lost one is not among them
    suffices hkept : ∀ {l : List ℕ} {v : Owner}, i ∉ l → ¬ v.Knows i →
        (v.children i).status ≠ .closed → Lost (closeEach l v) from
      hkept (fun hi => hk (hl i hi)) hk hs
    intro l
    induction l with
    | nil => exact fun _ hk hs => .child i hk hs
    | cons j rest ih =>
      intro v hi hk hs
      obtain ⟨hne, hrest⟩ := List.ne_and_not_mem_of_not_mem_cons hi
      refine ih hrest (fun hknows => hk (knows_closeOne hknows)) ?_
      rw [children_closeOne, Function.update_of_ne hne]
      exact hs
  | request hn hslot =>
    -- no child has the native request, which stays where it is
    suffices hkept : ∀ {l : List ℕ} {v : Owner}, v.request.native = false →
        v.nativeRequest.slot = true → Lost (closeEach l v) from hkept hn hslot
    intro l
    induction l with
    | nil => exact fun hn hslot => .request hn hslot
    | cons j rest ih =>
      intro v hn hslot
      have hrequest : (closeOne j v).request.native = false := by
        rw [closeOne, cleaned_eq]
        exact (Request.native_admitted _ _).trans hn
      refine ih hrequest ?_
      rw [closeOne, cleaned_eq]
      exact hslot

theorem lost_closeCache (h : Lost s) : Lost (closeEach s.cached (s.withCache [])) := by
  rw [closeEach_withCache]
  have hlost := lost_closeEach h fun i hi => Or.inr hi
  cases hlost with
  | child i hk hs =>
    exact .child i (fun hknows => hk (hknows.imp_right (absurd · List.not_mem_nil))) hs
  | request hn hslot => exact .request hn hslot

/-! ### The destruction -/

theorem prepared_closeEach (l : List ℕ) (s : Owner) :
    (closeEach l s).prepared = s.prepared.filter (· ∉ l) := by
  induction l generalizing s with
  | nil => exact (List.filter_eq_self.mpr fun _ _ => by simp).symm
  | cons i rest ih =>
    rw [closeEach, ih, prepared_closeOne, List.filter_filter]
    exact List.filter_congr fun j _ => by simp [Bool.and_comm]

/-- The children of a connection, then its cache. -/
def closedChildren (s : Owner) : Owner := closeEach s.prepared s

def closedCache (s : Owner) : Owner := closeEach s.cached (s.withCache [])

def joinedOwner (s : Owner) : Owner := if s.leased then s.onRequest Request.joined else s

/-- What the destruction of a connection leaves, step by step. -/
def destroyed (s : Owner) : Owner :=
  (detachedClosed (closedCache (closedChildren (joinedOwner s)))).markClosed.unregister

theorem destroyChildren_all (s : Owner) : s.prepared.filter (fun i =>
    (fun _ => true : Child → Bool) (s.children i)) = s.prepared :=
  List.filter_eq_self.mpr fun _ _ => rfl

theorem runs_closedChildren (s : Owner) :
    Runs (destroyChildren fun _ => true : Cleaning Owner E Unit) s (.ok ()) (closedChildren s) := by
  refine .look ?_
  rw [destroyChildren_all]
  exact runs_destroyEach _ _ _

theorem runs_joinedOwner (s : Owner) :
    Runs (look fun s => Comp.when s.leased joinController : Cleaning Owner E Unit) s (.ok ())
      (joinedOwner s) := by
  refine .look ?_
  rw [joinedOwner]
  cases s.leased with
  | false => exact .pure s
  | true => exact (@meets_joinController E s (fun _ _ => True) trivial trivial trivial).full

theorem runs_destroyConnection (s : Owner) :
    Runs (destroyConnection : Cleaning Owner E Unit) s (.ok ()) (destroyed s) :=
  (runs_joinedOwner s).bind
    ((((runs_closedChildren _).protect (runs_destroyCached _)).protect
      (runs_detachedClosed _)).protect ((Runs.act _ _ _ _).bind (.act _ _ _ _)))

theorem whole_joinedOwner (h : Tracked s) : Whole s (joinedOwner s) := by
  rw [joinedOwner]
  cases hl : s.leased with
  | false => exact ⟨h, rfl⟩
  | true => exact whole_onRequest h hl rfl rfl

theorem whole_closedChildren (h : Tracked s) : Whole s (closedChildren s) :=
  whole_closeEach h (fun _ hi => hi) h.nodup.1

theorem whole_destroyed (h : Tracked s) : Whole s (destroyed s) := by
  have hjoined := whole_joinedOwner h
  have hchildren := hjoined.trans (whole_closedChildren hjoined.tracked)
  have hcache := hchildren.trans (whole_closeCache hchildren.tracked rfl)
  have hclosed := hcache.trans (whole_detachedClosed hcache.tracked)
  have hmarked := hclosed.trans (whole_markClosed hclosed.tracked)
  exact hmarked.trans (whole_unregister hmarked.tracked)

/-- The last steps leave nothing to destroy. -/
theorem gone_detachedClosed {v : Owner} (h : Tracked v) (hprepared : v.prepared = [])
    (hcached : v.cached = []) : gone (detachedClosed v).markClosed.unregister =
      (detachedClosed v).markClosed.unregister := by
  have hmarked := (whole_markClosed (whole_detachedClosed h).tracked)
  have htracked := (whole_unregister hmarked.tracked).tracked
  generalize hw : (detachedClosed v).markClosed.unregister = w at htracked ⊢
  have hfields : w.prepared = v.prepared ∧ w.cached = v.cached ∧ w.leased = v.leased := by
    rw [← hw]
    change (detachedOwner v).prepared = _ ∧ (detachedOwner v).cached = _ ∧
      (detachedOwner v).leased = _
    rw [detachedOwner, detachedRequest]
    split <;> (try split) <;> exact ⟨rfl, rfl, rfl⟩
  have hprepared := hfields.1.trans hprepared
  have hcached := hfields.2.1.trans hcached
  -- nothing is registered or cached any more, so that every statement is destroyed already
  have hknows : ∀ i, ¬ w.Knows i := fun i hk => by
    rw [Owner.Knows, hprepared, hcached] at hk
    exact hk.elim List.not_mem_nil List.not_mem_nil
  have howner : w.resultOwner = none :=
    Option.eq_none_iff_forall_ne_some.mpr fun i hi => hknows i (htracked.resultOwner i hi)
  have hshut : ∀ i, (w.children i).shut = w.children i := fun i =>
    (htracked.child i).resolve_left (hknows i)
  -- the request of the connection is detached, and its native part retired
  have hrequest : (if w.leased then w.request.detached else w.request) = w.request := by
    rw [← hw]
    change (if (detachedOwner v).leased then (detachedOwner v).request.detached
      else (detachedOwner v).request) = (detachedOwner v).request
    rw [detachedOwner, detachedRequest]
    cases hl : v.leased with
    | false => simp [hl]
    | true =>
      cases hn : v.request.native <;>
        simp [Owner.onRequest, Owner.onNativeRequest, hl] <;> rfl
  have hnative : w.native.finish = w.native := by
    rw [← hw]
    exact Native.finish_finish _
  have hretired : w.nativeRequest.retired = w.nativeRequest := by
    refine NativeRequest.retired_of_not_slot ?_
    rw [← hw]
    exact (installed_detachedOwner h).2
  have hstatus : w.status = .closed ∧ w.busy = false ∧ w.registered = false := by
    rw [← hw]
    exact ⟨rfl, rfl, rfl⟩
  rw [gone, hprepared, hrequest, hnative, hretired, funext hshut]
  exact Owner.ext rfl hprepared.symm hcached.symm howner.symm hstatus.1.symm hstatus.2.1.symm
    hstatus.2.2.symm rfl rfl rfl rfl rfl rfl rfl rfl rfl rfl rfl rfl rfl

/-- **A connection that knows of all it has is destroyed as a whole.** -/
theorem destroyed_eq (h : Tracked s) : destroyed s = gone s := by
  have hjoined := whole_joinedOwner h
  have hchildren := hjoined.trans (whole_closedChildren hjoined.tracked)
  have hcache := hchildren.trans (whole_closeCache hchildren.tracked rfl)
  have hprepared : (closedCache (closedChildren (joinedOwner s))).prepared = [] := by
    rw [closedCache, closeEach_withCache]
    change (closeEach _ (closedChildren (joinedOwner s))).prepared = []
    rw [prepared_closeEach, closedChildren, prepared_closeEach, List.filter_filter]
    exact List.filter_eq_nil_iff.mpr fun j hj => by simp [hj]
  have hcached : (closedCache (closedChildren (joinedOwner s))).cached = [] := by
    rw [closedCache, closeEach_withCache]
    rfl
  exact (gone_detachedClosed hcache.tracked hprepared hcached).symm.trans (whole_destroyed h).gone

theorem Left.trans {u : Owner} {σ : Site} (h : Whole s t) (h' : Left t σ u) : Left s σ u :=
  h'.imp_left fun h' => ⟨h'.1, h.trans h'.2⟩

theorem Left.step {σ : Site} {f : Owner → Owner} (h : Left s σ t)
    (hwhole : Tracked t → Whole t (f t)) (hlost : Lost t → Lost (f t)) : Left s σ (f t) :=
  h.imp (fun h => ⟨h.1, h.2.trans (hwhole h.2.tracked)⟩) fun h => ⟨h.1, hlost h.2⟩

theorem meets_destroyChildren (h : Tracked s) :
    Meets (destroyChildren fun _ => true : Cleaning Owner E Unit) s (closedChildren s)
      (fun σ t => σ = .free ∧ Whole s t) := by
  refine .look ?_
  rw [destroyChildren_all]
  exact (meets_destroyEach .free s.prepared s).mono fun _ _ hbroken =>
    whole_of_broken hbroken h (fun _ hi => hi) h.nodup.1

theorem lost_markClosed (h : Lost s) : Lost s.markClosed := lost_of_same h rfl rfl rfl rfl id

theorem lost_unregister (h : Lost s) : Lost s.unregister := lost_of_same h rfl rfl rfl rfl id

/-- **An interrupted destruction of a connection** loses nothing, or what was held. -/
theorem meets_destroyConnection (h : Tracked s) :
    Meets (destroyConnection : Cleaning Owner E Unit) s (gone s) (Left s) := by
  have hjoined := whole_joinedOwner h
  have hchildren := hjoined.trans (whole_closedChildren hjoined.tracked)
  have hcache := hchildren.trans (whole_closeCache hchildren.tracked rfl)
  have hclosed := hcache.trans (whole_detachedClosed hcache.tracked)
  have hmarked := hclosed.trans (whole_markClosed hclosed.tracked)
  -- the controller is joined before anything is destroyed
  have hjoin : Meets (look fun s => Comp.when s.leased joinController : Cleaning Owner E Unit) s
      (joinedOwner s) (Left s) := by
    refine .look ?_
    rw [joinedOwner]
    cases hl : s.leased with
    | false => exact .pure s
    | true =>
      exact meets_joinController (.inl ⟨rfl, h, rfl⟩)
        (.inl ⟨rfl, whole_onRequest h hl rfl rfl⟩) (.inl ⟨rfl, whole_onRequest h hl rfl rfl⟩)
  -- the children, and in any case the cache after them
  have hinner := ((meets_destroyChildren (E := E) hjoined.tracked).mono fun _ _ hv =>
    (⟨hv.1, hjoined.trans hv.2⟩ : _ ∧ Whole s _)).protect
      ((meets_destroyCached hchildren.tracked).mono fun _ _ => Left.trans hchildren)
      fun _ v hv => ⟨closedCache v, runs_destroyCached v,
        .inl ⟨hv.1, hv.2.trans (whole_closeCache hv.2.tracked rfl)⟩⟩
  -- then the request and the native handle
  have hnative := hinner.protect
    ((meets_detachedClosed hcache.tracked).mono fun _ _ => Left.trans hcache)
    fun _ v hv => ⟨detachedClosed v, runs_detachedClosed v,
      hv.step whole_detachedClosed lost_detachedClosed⟩
  -- and the state of the connection at the end, whatever has been cut before
  have hend := hjoin.bind (hnative.protect
    ((Meets.act (.inl ⟨rfl, hclosed⟩) (.inl ⟨rfl, hmarked⟩)).bind
      (.act (.inl ⟨rfl, hmarked⟩)
        (.inl ⟨rfl, hmarked.trans (whole_unregister hmarked.tracked)⟩)))
    fun _ v hv => ⟨v.markClosed.unregister, (Runs.act _ _ _ _).bind (.act _ _ _ _),
      (hv.step whole_markClosed lost_markClosed).step whole_unregister lost_unregister⟩)
  rw [← destroyed_eq h]
  exact hend

/-! ### The second run -/

theorem lost_closedChildren (h : Lost s) : Lost (closedChildren s) :=
  lost_closeEach h fun _ hi => Or.inl hi

theorem lost_joinedOwner (h : Lost s) : Lost (joinedOwner s) := by
  rw [joinedOwner]
  split
  · exact lost_of_same h rfl rfl rfl rfl id
  · exact h

theorem lost_destroyed (h : Lost s) : Lost (destroyed s) :=
  lost_unregister (lost_markClosed (lost_detachedClosed
    (lost_closeCache (lost_closedChildren (lost_joinedOwner h)))))

theorem Child.status_shut (c : Child) : c.shut.status = .closed := rfl

/-- The destruction of a connection that knows of all it has loses nothing. -/
theorem not_lost_gone (s : Owner) : ¬ Lost (gone s) := by
  rintro (⟨i, -, hs⟩ | ⟨-, hslot⟩)
  · exact hs (Child.status_shut _)
  · exact Bool.false_ne_true ((NativeRequest.slot_retired _).symm.trans hslot)

/-- **The second run** reaches the state of an uninterrupted run exactly when nothing was held. -/
theorem destroyed_of_left {σ : Site} (h : Left s σ t) : destroyed t = gone s ↔ σ ≠ .holding := by
  rcases h with ⟨rfl, hwhole⟩ | ⟨rfl, hlost⟩
  · exact iff_of_true ((destroyed_eq hwhole.tracked).trans hwhole.gone) nofun
  · exact iff_of_false (fun he => not_lost_gone s (he ▸ lost_destroyed hlost)) (absurd rfl ·)

end DuckdbMl.Interruption
