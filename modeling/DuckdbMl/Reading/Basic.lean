import Mathlib.Data.List.Basic

/-!
# Reading quoted texts

Inside a quoted text a quote is doubled, so that the text ends at the first quote that is not
followed by another one.

## Main definitions

* `doubled`, `lexQuoted`: the inside of a quoted text, and reading it

## Main results

* `lexQuoted_doubled`: a quoted text is read as what it quotes
-/

namespace DuckdbMl.Reading

variable {x u : List Char}

/-- The inside of a text between quotes `q`: those in it are doubled. -/
def doubled (q : Char) (x : List Char) : List Char :=
  x.flatMap fun c => if c = q then [q, q] else [c]

theorem doubled_cons (q c : Char) (x : List Char) :
    doubled q (c :: x) = (if c = q then [q, q] else [c]) ++ doubled q x := rfl

/-- Reading the inside of a quoted text, and what follows it: the text ends at the first quote that
is not followed by another one. -/
def lexQuoted (q : Char) : List Char → Option (List Char × List Char)
  | [] => none
  | [c] => if c = q then some ([], []) else none
  | c :: d :: w =>
    if c = q then
      if d = q then (lexQuoted q w).map fun r => (q :: r.1, r.2) else some ([], d :: w)
    else (lexQuoted q (d :: w)).map fun r => (c :: r.1, r.2)

/-- A quoted text is read back. -/
theorem lexQuoted_doubled {q : Char} (hu : u.head? ≠ some q) :
    lexQuoted q (doubled q x ++ q :: u) = some (x, u) := by
  induction x with
  | nil =>
    cases u with
    | nil => exact if_pos rfl
    | cons d u =>
      have hd : d ≠ q := fun h => hu (congrArg some h)
      change lexQuoted q (q :: d :: u) = _
      rw [lexQuoted, if_pos rfl, if_neg hd]
  | cons c x ih =>
    obtain ⟨d, w, hw⟩ : ∃ d w, doubled q x ++ q :: u = d :: w := by
      cases h : doubled q x ++ q :: u with
      | nil => simp at h
      | cons d w => exact ⟨d, w, rfl⟩
    rw [hw] at ih
    rw [doubled_cons, List.append_assoc, hw]
    split
    case isTrue hc => rw [List.cons_append, List.singleton_append, lexQuoted, if_pos rfl,
      if_pos rfl, ih, Option.map_some, hc]
    case isFalse hc => rw [List.singleton_append, lexQuoted, if_neg hc, ih, Option.map_some]

end DuckdbMl.Reading
