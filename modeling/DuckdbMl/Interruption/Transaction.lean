import DuckdbMl.Interruption.Connection

/-!
# The rollback of a transaction can be retried

## Main definitions

* `rolledBack s`: what a rollback leaves
* `Settled`: the states from which only children are left to be destroyed

## Main results

* `meets_rollback`: an interrupted rollback reaches the same state
-/

namespace DuckdbMl.Interruption

open Effects

variable {E : Type} {s t : Owner} {i : ℕ}

/-- The children that belong to the transaction. -/
def Owner.ofTransaction (s : Owner) : List ℕ :=
  s.prepared.filter fun i => (s.children i).transaction

def revoked (s : Owner) : Owner := s.revoke.onRequest (Request.admitted s.facade)

def drained (s : Owner) : Owner := closeEach (revoked s).ofTransaction (revoked s)

def ended (s : Owner) : Owner := if s.begun then s.endTransaction.readConnection else s

/-- What a rollback leaves. -/
def rolledBack (s : Owner) : Owner := ended (drained s)

theorem runs_rollbackIfBegun (s : Owner) :
    Runs (rollbackIfBegun : Cleaning Owner E Unit) s (.ok ()) (ended s) := by
  refine .look ?_
  rw [ended]
  cases s.begun with
  | false => exact .pure s
  | true => exact ((Runs.act _ _ _ _).bind (.act _ _ _ _)).protect (.act _ _ id _)

theorem runs_rollback (s : Owner) :
    Runs (rollback : Cleaning Owner E Unit) s (.ok ()) (rolledBack s) :=
  (((Runs.act _ _ _ _).bind ((Runs.look (runs_admitCleanup _ _)).bind
    (.look (runs_destroyEach _ _ _))))).bind (runs_rollbackIfBegun _)

/-- Nothing is left to be revoked or joined. -/
structure Settled (s : Owner) : Prop where
  active : s.active = false
  request : s.request.admitted s.facade = s.request
  nodup : s.prepared.Nodup

theorem Settled.revoked_eq (h : Settled s) : revoked s = s := by
  rw [revoked, Owner.onRequest]
  exact Owner.ext rfl rfl rfl rfl rfl rfl rfl rfl rfl h.request rfl rfl h.active.symm rfl rfl rfl
    rfl rfl rfl rfl

theorem settled_revoked (h : s.prepared.Nodup) : Settled (revoked s) :=
  ⟨rfl, Request.admitted_admitted _ _, h⟩

/-! ### The children of a transaction -/

theorem Request.admitted_comm (f g : Bool) (r : Request) :
    (r.admitted f).admitted g = (r.admitted g).admitted f := by
  rcases r with ⟨_ | _, _, _, _⟩ <;> rcases f with _ | _ <;> rcases g with _ | _ <;> rfl

theorem Child.transaction_cleaned (c : Child) : c.cleaned.transaction = c.transaction := by
  rcases c with ⟨_ | _, _, _, _, n, _, _, _⟩ <;> rfl

theorem Child.cleaned_cleaned (c : Child) : c.cleaned.cleaned = c.cleaned := by
  rcases c with ⟨_ | _, _, _, _, n, _, _, _ | _⟩ <;>
    simp [cleaned, closeAppender, closePrepared, Native.finish_finish]

theorem Child.cleaned_mark (c : Child) : c.mark.cleaned = c.cleaned.mark := by
  rcases c with ⟨_ | _, _, _, _, n, _, _, _⟩ <;> rfl

theorem ofTransaction_of_same (hprepared : t.prepared = s.prepared)
    (hchild : ∀ j, (t.children j).transaction = (s.children j).transaction) :
    t.ofTransaction = s.ofTransaction := by
  rw [Owner.ofTransaction, Owner.ofTransaction, hprepared]
  exact List.filter_congr fun j _ => hchild j

theorem children_cleaned (i : ℕ) (s : Owner) :
    (cleaned i s).children = Function.update s.children i (s.children i).cleaned := by
  rw [cleaned_eq]

theorem prepared_cleaned (i : ℕ) (s : Owner) : (cleaned i s).prepared = s.prepared := by
  rw [cleaned_eq]

theorem transaction_update {c : Child} (hc : c.transaction = (s.children i).transaction) (j : ℕ) :
    (Function.update s.children i c j).transaction = (s.children j).transaction := by
  by_cases hj : j = i
  · rw [hj, Function.update_self, hc]
  · rw [Function.update_of_ne hj]

theorem ofTransaction_cleaned (i : ℕ) (s : Owner) :
    (cleaned i s).ofTransaction = s.ofTransaction :=
  ofTransaction_of_same (prepared_cleaned i s) fun j => by
    rw [children_cleaned]
    exact transaction_update (Child.transaction_cleaned _) j

theorem ofTransaction_mark (i : ℕ) (s : Owner) :
    (s.update i Child.mark).ofTransaction = s.ofTransaction :=
  ofTransaction_of_same rfl (transaction_update rfl)

theorem ofTransaction_dropChild (i : ℕ) (s : Owner) :
    (s.dropChild i).ofTransaction = s.ofTransaction.filter (· ≠ i) := by
  rw [Owner.ofTransaction, Owner.ofTransaction, Owner.dropChild]
  dsimp only
  rw [List.filter_filter, List.filter_filter]
  exact List.filter_congr fun j _ => Bool.and_comm _ _

theorem ofTransaction_closeOne (i : ℕ) (s : Owner) :
    (closeOne i s).ofTransaction = s.ofTransaction.filter (· ≠ i) := by
  rw [closeOne, ofTransaction_dropChild, ofTransaction_mark, ofTransaction_cleaned]

theorem ofTransaction_closeOne_cons {rest : List ℕ} (hl : s.ofTransaction = i :: rest)
    (hnodup : s.prepared.Nodup) : (closeOne i s).ofTransaction = rest := by
  have hcons : (i :: rest).Nodup := by
    rw [← hl]
    exact hnodup.filter _
  obtain ⟨hi, -⟩ := List.nodup_cons.mp hcons
  rw [ofTransaction_closeOne, hl, List.filter_cons_of_neg (by simp), filter_ne_of_not_mem hi]

theorem ofTransaction_closeEach {l : List ℕ} (hl : s.ofTransaction = l)
    (hnodup : s.prepared.Nodup) : (closeEach l s).ofTransaction = [] := by
  induction l generalizing s with
  | nil => exact hl
  | cons i rest ih =>
    refine ih (ofTransaction_closeOne_cons hl hnodup) ?_
    rw [prepared_closeOne]
    exact hnodup.filter _

/-! ### What stays settled -/

theorem Settled.cleaned (h : Settled s) (i : ℕ) : Settled (cleaned i s) := by
  rw [cleaned_eq]
  refine ⟨h.active, ?_, h.nodup⟩
  change (s.request.admitted _).admitted s.facade = s.request.admitted _
  rw [Request.admitted_comm, h.request]

theorem Settled.mark (h : Settled s) (i : ℕ) : Settled (s.update i Child.mark) :=
  ⟨h.active, h.request, h.nodup⟩

theorem Settled.dropChild (h : Settled s) (i : ℕ) : Settled (s.dropChild i) :=
  ⟨h.active, h.request, h.nodup.filter _⟩

theorem Settled.closeOne (h : Settled s) (i : ℕ) : Settled (closeOne i s) :=
  ((h.cleaned i).mark i).dropChild i

theorem Settled.closeEach (h : Settled s) (l : List ℕ) : Settled (closeEach l s) := by
  induction l generalizing s with
  | nil => exact h
  | cons i rest ih => exact ih (h.closeOne i)

theorem Settled.rolledBack_eq (h : Settled s) :
    rolledBack s = ended (Interruption.closeEach s.ofTransaction s) := by
  rw [rolledBack, drained, h.revoked_eq]

/-- A child that has been cleaned is destroyed as before. -/
theorem closeOne_cleaned (i : ℕ) (s : Owner) : closeOne i (cleaned i s) = closeOne i s := by
  have he : cleaned i (cleaned i s) = cleaned i s := by
    rw [cleaned_eq, cleaned_eq]
    refine Owner.ext ?_ rfl rfl ?_ rfl rfl rfl rfl rfl ?_ rfl rfl rfl ?_ rfl rfl rfl rfl rfl rfl
    · simp [Child.cleaned_cleaned]
    · dsimp only
      split <;> simp_all
    · dsimp only
      rw [Function.update_self, Child.facade_cleaned, Request.admitted_admitted]
    · simp only [Function.update_self, Child.appender_cleaned]
      split
      · cases s.failure <;> rfl
      · rfl
  rw [closeOne, he, ← closeOne]

theorem closeOne_mark (i : ℕ) (s : Owner) :
    closeOne i ((cleaned i s).update i Child.mark) = closeOne i s := by
  rw [← closeOne_cleaned i s, closeOne, closeOne]
  generalize cleaned i s = v
  rw [cleaned_eq, cleaned_eq]
  refine Owner.ext ?_ rfl rfl rfl rfl rfl rfl rfl rfl ?_ rfl rfl rfl ?_ rfl rfl rfl rfl rfl rfl
  · simp [Owner.dropChild, Owner.update, Child.cleaned_mark]
    rfl
  · simp [Owner.dropChild, Owner.update]
    rfl
  · simp [Owner.dropChild, Owner.update]
    rfl

/-- **An interrupted destruction of the children of a transaction** leaves a state that is rolled
back as before. -/
theorem rolledBack_of_broken {l : List ℕ} {σ : Site} (hbroken : Broken .free l s σ t)
    (h : Settled s) (hl : s.ofTransaction = l) :
    σ = .free ∧ rolledBack t = ended (closeEach l s) := by
  induction hbroken with
  | closed =>
    rw [(h.closeEach _).rolledBack_eq, ofTransaction_closeEach hl h.nodup]
    exact ⟨rfl, rfl⟩
  | @cleaned i rest s =>
    rw [(h.cleaned i).rolledBack_eq, ofTransaction_cleaned, hl, closeEach, closeOne_cleaned,
      ← closeEach]
    exact ⟨rfl, rfl⟩
  | @marked i rest s =>
    rw [((h.cleaned i).mark i).rolledBack_eq, ofTransaction_mark, ofTransaction_cleaned, hl,
      closeEach, closeOne_mark, ← closeEach]
    exact ⟨by simp, rfl⟩
  | @dropped i rest s =>
    rw [(h.closeOne i).rolledBack_eq, ofTransaction_closeOne_cons hl h.nodup]
    exact ⟨by simp, rfl⟩
  | @later i rest s t σ _ ih => exact ih (h.closeOne i) (ofTransaction_closeOne_cons hl h.nodup)

/-! ### The rollback -/

theorem rolledBack_ended (h : Settled s) (hl : s.ofTransaction = []) :
    rolledBack s = ended s := by
  rw [h.rolledBack_eq, hl]
  rfl

theorem meets_rollbackIfBegun (h : Settled s) (hl : s.ofTransaction = []) :
    Meets (rollbackIfBegun : Cleaning Owner E Unit) s (ended s)
      (fun σ t => σ = .free ∧ rolledBack t = ended s) := by
  have hsame : ∀ t, Settled t → t.ofTransaction = [] → ended t = ended s →
      (fun σ t => σ = .free ∧ rolledBack t = ended s) Site.free t :=
    fun t ht hlt he => ⟨rfl, (rolledBack_ended ht hlt).trans he⟩
  refine .look ?_
  cases hb : s.begun with
  -- no transaction has begun: there is nothing to do
  | false =>
    have he : ended s = s := if_neg (hb ▸ Bool.false_ne_true)
    rw [he]
    exact .pure s
  -- rolling back again, or reading the connection again, changes nothing more
  | true =>
    have he : ended s = s.endTransaction.readConnection := if_pos hb
    have hend : ended s.endTransaction = ended s :=
      (if_pos (c := s.endTransaction.begun = true) hb).trans he.symm
    have hread : ended s.endTransaction.readConnection = ended s := by
      have hagain : ended s.endTransaction.readConnection =
          s.endTransaction.readConnection.readConnection :=
        if_pos (c := s.endTransaction.readConnection.begun = true) hb
      rw [hagain, he, Owner.readConnection, Owner.readConnection]
      simp only [Bool.or_assoc, Bool.or_self]
    have hsettled : Settled s.endTransaction := ⟨h.active, h.request, h.nodup⟩
    have hsettled' : Settled s.endTransaction.readConnection := ⟨h.active, h.request, h.nodup⟩
    have hs := hsame s h hl rfl
    have hs₁ := hsame _ hsettled hl hend
    have hs₂ := hsame _ hsettled' hl hread
    rw [he] at hs hs₁ hs₂ ⊢
    exact ((Meets.act hs hs₁).bind (.act hs₁ hs₂)).protect (.act (f := id) hs₂ hs₂)
      fun σ v hv => ⟨v, .act _ _ id _, hv⟩

/-- **An interrupted rollback can be retried.** -/
theorem meets_rollback (h : s.prepared.Nodup) :
    Meets (rollback : Cleaning Owner E Unit) s (rolledBack s) (Kept rolledBack s) := by
  have hsettled := settled_revoked h
  have hrevoke : rolledBack s.revoke = rolledBack s := rfl
  have hjoin : ∀ f : Request → Request, (f s.request).admitted s.facade =
      s.request.admitted s.facade → rolledBack (s.revoke.onRequest f) = rolledBack s := by
    intro f hf
    have he : revoked (s.revoke.onRequest f) = revoked s := by
      rw [revoked, revoked, Owner.onRequest, Owner.onRequest, Owner.onRequest]
      exact Owner.ext rfl rfl rfl rfl rfl rfl rfl rfl rfl hf rfl rfl rfl rfl rfl rfl rfl rfl rfl rfl
    rw [rolledBack, rolledBack, drained, drained, he]
  -- three steps: the admission, the children of the transaction, and the rollback itself
  have hadmission : Meets (look fun s => admitCleanup s.facade : Cleaning Owner E Unit) s.revoke
      (revoked s) (Kept rolledBack s) :=
    .look (meets_admitCleanup ⟨rfl, hrevoke⟩ fun hc =>
      ⟨⟨rfl, hjoin _ (Request.admitted_stopController hc)⟩,
        ⟨rfl, hjoin _ (Request.admitted_joined hc)⟩⟩)
  have hdrain : Meets (destroyChildren Child.transaction : Cleaning Owner E Unit) (revoked s)
      (drained s) (Kept rolledBack s) :=
    .look ((meets_destroyEach .free _ _).mono fun _ _ hbroken =>
      rolledBack_of_broken hbroken hsettled rfl)
  have hend : Meets (rollbackIfBegun : Cleaning Owner E Unit) (drained s) (rolledBack s)
      (Kept rolledBack s) :=
    meets_rollbackIfBegun (hsettled.closeEach _) (ofTransaction_closeEach rfl hsettled.nodup)
  exact ((Meets.act ⟨rfl, rfl⟩ ⟨rfl, hrevoke⟩).bind (hadmission.bind hdrain)).bind hend

end DuckdbMl.Interruption
