import Mathlib.Data.List.Basic

/-!
# Joined texts

A text is often written as its pieces, with a separator between any two. Where a piece may itself
hold separators, pieces that are not the same can have one text: a piece of one then runs on over
separators of the other.

## Main definitions

* `Pieces`, `Pieces.join`: pieces with the separators between them, and the text that they join to
* `Overlaps`: reading two lists of pieces side by side, a piece that is longer than its counterpart
  goes on with the counterpart's separator

## Main results

* `overlaps_iff`: pieces have one text exactly when they overlap
-/

namespace DuckdbMl.Joining

variable {α : Type*}

/-- The first piece, and every further one after its separator. -/
structure Pieces (α : Type*) where
  head : List α
  tail : List (α × List α)

def Pieces.join (p : Pieces α) : List α := p.head ++ p.tail.flatMap fun x => x.1 :: x.2

@[simp] theorem join_nil (a : List α) : (Pieces.mk a []).join = a := by simp [Pieces.join]

@[simp] theorem join_cons (a b : List α) (s : α) (l : List (α × List α)) :
    (Pieces.mk a ((s, b) :: l)).join = a ++ s :: (Pieces.mk b l).join := by
  simp [Pieces.join]

theorem join_append_cons (a r : List α) (s : α) (l : List (α × List α)) :
    (Pieces.mk (a ++ s :: r) l).join = a ++ s :: (Pieces.mk r l).join := by
  simp [Pieces.join]

/-- **Overlapping pieces**: wherever the first pieces are not the same, one of them is the other
followed by its separator, and what is left of it overlaps with the rest of the other. -/
inductive Overlaps : Pieces α → Pieces α → Prop
  | last (a : List α) : Overlaps ⟨a, []⟩ ⟨a, []⟩
  | same {b c : List α} {l m : List (α × List α)} (a : List α) (s : α) :
      Overlaps ⟨b, l⟩ ⟨c, m⟩ → Overlaps ⟨a, (s, b) :: l⟩ ⟨a, (s, c) :: m⟩
  | left {b r : List α} {l m : List (α × List α)} (a : List α) (s : α) :
      Overlaps ⟨b, l⟩ ⟨r, m⟩ → Overlaps ⟨a, (s, b) :: l⟩ ⟨a ++ s :: r, m⟩
  | right {b r : List α} {l m : List (α × List α)} (a : List α) (s : α) :
      Overlaps ⟨r, l⟩ ⟨b, m⟩ → Overlaps ⟨a ++ s :: r, l⟩ ⟨a, (s, b) :: m⟩

theorem Overlaps.join_eq {p q : Pieces α} (h : Overlaps p q) : p.join = q.join := by
  induction h with
  | last a => rfl
  | same a s _ ih => rw [join_cons, join_cons, ih]
  | left a s _ ih => rw [join_cons, ih, join_append_cons]
  | right a s _ ih => rw [join_append_cons, ih, join_cons]

/-- Where a text reaches beyond the other's first piece, it goes on with the separator. -/
theorem overlaps_of_join_eq : ∀ (a b : List α) (l m : List (α × List α)),
    (Pieces.mk a l).join = (Pieces.mk b m).join → Overlaps ⟨a, l⟩ ⟨b, m⟩
  | a, b, [], [], h => by
    rw [join_nil, join_nil] at h
    exact h ▸ .last a
  | a, b, (s, c) :: l, [], h => by
    rw [join_cons, join_nil] at h
    exact h ▸ .left a s (overlaps_of_join_eq c _ l [] (join_nil _).symm)
  | a, b, [], (s, c) :: m, h => by
    rw [join_cons, join_nil] at h
    exact h ▸ .right b s (overlaps_of_join_eq _ c [] m (join_nil _))
  | a, b, (s, c) :: l, (t, d) :: m, h => by
    rw [join_cons, join_cons] at h
    rcases List.append_eq_append_iff.mp h with ⟨r, rfl, hr⟩ | ⟨r, rfl, hr⟩
    · cases r with
      | nil =>
        obtain ⟨rfl, he⟩ := List.cons.inj hr
        rw [List.append_nil]
        exact .same a s (overlaps_of_join_eq c d l m he)
      | cons x r =>
        obtain ⟨rfl, he⟩ := List.cons.inj hr
        exact .left a s (overlaps_of_join_eq c r l ((t, d) :: m) (he.trans (join_cons ..).symm))
    · cases r with
      | nil =>
        obtain ⟨rfl, he⟩ := List.cons.inj hr
        rw [List.append_nil]
        exact .same b t (overlaps_of_join_eq c d l m he.symm)
      | cons x r =>
        obtain ⟨rfl, he⟩ := List.cons.inj hr
        exact .right b t (overlaps_of_join_eq r d ((s, c) :: l) m ((join_cons ..).trans he.symm))
termination_by _ _ l m => l.length + m.length

/-- **Pieces have one text exactly when they overlap.** -/
theorem overlaps_iff {p q : Pieces α} : Overlaps p q ↔ p.join = q.join :=
  ⟨Overlaps.join_eq, overlaps_of_join_eq p.head q.head p.tail q.tail⟩

instance [DecidableEq α] (p q : Pieces α) : Decidable (Overlaps p q) :=
  decidable_of_iff _ overlaps_iff.symm

end DuckdbMl.Joining
