import Mathlib.Data.List.FinRange
import Mathlib.Data.List.Perm.Subperm
import Mathlib.Data.Fintype.Card

/-!
# Greedy matching

The elements of a list are matched in order, each with the first element of another list that is
related to it and not taken yet. For an equivalence the greedy choice never has to be undone.

## Main definitions

* `Injects r l m`: the elements of `l` are related to different elements of `m`
* `unmatched`: the first element of `l` for which the greedy search finds no partner

## Main results

* `unmatched_eq_none_iff`: for an equivalence the search succeeds exactly when `l` injects
* `injects_perm`: injections do not depend on the orders of the lists
-/

namespace DuckdbMl.Matching

variable {α : Type*} {r : α → α → Prop} {l l' m m' : List α}

/-- **An injection** of the elements of `l` into related elements of `m`. -/
def Injects (r : α → α → Prop) (l m : List α) : Prop :=
  ∃ f : Fin l.length → Fin m.length, f.Injective ∧ ∀ i, r (l.get i) (m.get (f i))

/-- The first element of `l` without a partner of its own in `m`. -/
def unmatched (r : α → α → Bool) : List α → List α → Option α
  | [], _ => none
  | a :: l, m =>
    match m.findIdx? (r a) with
    | none => some a
    | some i => unmatched r l (m.eraseIdx i)

theorem countP_eraseIdx (p : α → Bool) {i : ℕ} (h : i < m.length) :
    m.countP p = (m.eraseIdx i).countP p + if p m[i] then 1 else 0 := by
  induction m generalizing i with
  | nil => simp at h
  | cons b m ih =>
    cases i with
    | zero => simp [List.countP_cons]
    | succ i =>
      simp only [List.eraseIdx_cons_succ, List.countP_cons, List.getElem_cons_succ,
        ih (by simpa using h)]
      omega

/-- An injection leaves room in every class. -/
theorem Injects.countP_le (he : Equivalence r) (h : Injects r l m) [DecidableRel r] (a : α) :
    l.countP (r a ·) ≤ m.countP (r a ·) := by
  obtain ⟨f, hf, hr⟩ := h
  calc l.countP (r a ·)
      = (List.finRange l.length).countP fun i => decide (r a (l.get i)) := by
        conv_lhs => rw [← List.map_get_finRange l]
        rw [List.countP_map]
        rfl
    _ ≤ (List.finRange l.length).countP fun i => decide (r a (m.get (f i))) := by
        refine List.countP_mono_left fun i _ hi => ?_
        exact decide_eq_true (he.trans (of_decide_eq_true hi) (hr i))
    _ = ((List.finRange l.length).map f).countP fun j => decide (r a (m.get j)) := by
        rw [List.countP_map]
        rfl
    _ ≤ (List.finRange m.length).countP fun j => decide (r a (m.get j)) := by
        refine List.Subperm.countP_le _ (List.subperm_of_subset ?_ fun j _ => List.mem_finRange j)
        exact (List.nodup_finRange _).map hf
    _ = m.countP (r a ·) := by
        conv_rhs => rw [← List.map_get_finRange m]
        rw [List.countP_map]
        rfl

/-- Related lists receive the same injections. -/
theorem Injects.trans_forall₂ (he : Equivalence r) (h : Injects r l m)
    (hm : List.Forall₂ r m m') : Injects r l m' := by
  obtain ⟨f, hf, hr⟩ := h
  obtain ⟨hlen, hget⟩ := List.forall₂_iff_get.mp hm
  refine ⟨fun i => ⟨(f i).1, hlen ▸ (f i).2⟩, fun i j hij => hf (Fin.ext (Fin.mk.inj hij)),
    fun i => ?_⟩
  exact he.trans (hr i) (hget (f i).1 (f i).2 (hlen ▸ (f i).2))

/-- Related lists have the same injections. -/
theorem Injects.of_forall₂ (he : Equivalence r) (h : Injects r l m)
    (hl : List.Forall₂ r l' l) : Injects r l' m := by
  obtain ⟨f, hf, hr⟩ := h
  obtain ⟨hlen, hget⟩ := List.forall₂_iff_get.mp hl
  refine ⟨fun i => f ⟨i.1, hlen ▸ i.2⟩, fun i j hij => Fin.ext (Fin.mk.inj (hf hij)), fun i => ?_⟩
  exact he.trans (hget i.1 i.2 (hlen ▸ i.2)) (hr _)

theorem Injects.refl (hr : ∀ a, r a a) (l : List α) : Injects r l l :=
  ⟨id, Function.injective_id, fun i => hr (l.get i)⟩

theorem Injects.append_right (h : Injects r l m) (m' : List α) : Injects r l (m ++ m') := by
  obtain ⟨f, hf, hr⟩ := h
  have hlt : ∀ i, (f i).1 < (m ++ m').length := fun i =>
    (f i).2.trans_le (by rw [List.length_append]; exact Nat.le_add_right ..)
  refine ⟨fun i => ⟨(f i).1, hlt i⟩, fun i j hij => hf (Fin.ext (Fin.mk.inj hij)), fun i => ?_⟩
  have hget : (m ++ m').get ⟨(f i).1, hlt i⟩ = m.get (f i) := by simp
  exact hget ▸ hr i

/-- An injection of a tail that avoids a partner of the head extends to the list. -/
theorem Injects.cons {a : α} {i : ℕ} (hi : i < m.length) (ha : r a m[i])
    (h : Injects r l (m.eraseIdx i)) : Injects r (a :: l) m := by
  obtain ⟨f, hf, hr⟩ := h
  have hlen : (m.eraseIdx i).length + 1 = m.length := by
    rw [List.length_eraseIdx_of_lt hi]
    omega
  -- the positions of `m` other than `i`, in order
  let g : Fin (m.eraseIdx i).length → Fin m.length := fun j =>
    ⟨if j.1 < i then j.1 else j.1 + 1, by split <;> omega⟩
  have hg : g.Injective := fun j k hjk => by
    have : (if j.1 < i then j.1 else j.1 + 1) = if k.1 < i then k.1 else k.1 + 1 :=
      Fin.mk.inj hjk
    apply Fin.ext
    split at this <;> split at this <;> omega
  have hgi : ∀ j, (g j).1 ≠ i := fun j => by
    change (if j.1 < i then j.1 else j.1 + 1) ≠ i
    split <;> omega
  have hget : ∀ j, m.get (g j) = (m.eraseIdx i).get j := fun j => by
    rw [List.get_eq_getElem, List.get_eq_getElem, List.getElem_eraseIdx]
    split
    case isTrue hj => simp only [g, if_pos hj]
    case isFalse hj => simp only [g, if_neg hj]
  refine ⟨Fin.cases ⟨i, hi⟩ fun k => g (f k), fun j k => ?_, fun j => ?_⟩
  · refine Fin.cases ?_ (fun j => ?_) j <;> refine Fin.cases ?_ (fun k => ?_) k
    · exact fun _ => rfl
    · exact fun h => absurd (congrArg Fin.val h).symm (hgi _)
    · exact fun h => absurd (congrArg Fin.val h) (hgi _)
    · exact fun h => congrArg Fin.succ (hf (hg h))
  · refine Fin.cases ?_ (fun j => ?_) j
    · exact ha
    · have := hr j
      rw [← hget] at this
      exact this

/-- A successful search is an injection. -/
theorem injects_of_unmatched [DecidableRel r] (h : unmatched (r · ·) l m = none) :
    Injects r l m := by
  induction l generalizing m with
  | nil => exact ⟨Fin.elim0, fun i => i.elim0, fun i => i.elim0⟩
  | cons a l ih =>
    rw [unmatched] at h
    split at h
    case h_1 => cases h
    case h_2 i hi =>
      obtain ⟨hlt, ha, -⟩ := List.findIdx?_eq_some_iff_getElem.mp hi
      exact .cons hlt (of_decide_eq_true ha) (ih h)

/-- With room in every class the search succeeds: a partner is taken from the class of its
element, so the classes of the rest keep their room. -/
theorem unmatched_of_countP_le [DecidableRel r] (hr : Equivalence r)
    (h : ∀ a, l.countP (r a ·) ≤ m.countP (r a ·)) : unmatched (r · ·) l m = none := by
  induction l generalizing m with
  | nil => rfl
  | cons a l ih =>
    rw [unmatched]
    split
    case h_1 hn =>
      have hnone : m.countP (r a ·) = 0 :=
        List.countP_eq_zero.mpr fun b hb => by simpa using List.findIdx?_eq_none_iff.mp hn b hb
      have := h a
      simp [hnone, hr.refl a] at this
    case h_2 i hi =>
      obtain ⟨hlt, ha, -⟩ := List.findIdx?_eq_some_iff_getElem.mp hi
      have ha : r a m[i] := of_decide_eq_true ha
      refine ih fun b => ?_
      have hb := h b
      have hclass : r b a ↔ r b m[i] := ⟨fun h => hr.trans h ha, fun h => hr.trans h (hr.symm ha)⟩
      rw [List.countP_cons, countP_eraseIdx _ hlt] at hb
      simp only [hclass] at hb
      omega

/-- **The greedy search is complete** for an equivalence. -/
theorem unmatched_eq_none_iff [DecidableRel r] (hr : Equivalence r) :
    unmatched (r · ·) l m = none ↔ Injects r l m :=
  ⟨injects_of_unmatched, fun h =>
    unmatched_of_countP_le hr (h.countP_le hr)⟩

/-- **Injections do not depend on the orders.** -/
theorem injects_perm (hr : Equivalence r) (hl : l.Perm l') (hm : m.Perm m') :
    Injects r l m ↔ Injects r l' m' := by
  classical
  have hto : ∀ {l l' m m' : List α}, l.Perm l' → m.Perm m' → Injects r l m → Injects r l' m' :=
    fun hl hm h => injects_of_unmatched (unmatched_of_countP_le hr fun a => by
      rw [← hl.countP_eq, ← hm.countP_eq]
      exact h.countP_le hr a)
  exact ⟨hto hl hm, hto hl.symm hm.symm⟩

end DuckdbMl.Matching
