import DuckdbMl.Schema.Catalog
import DuckdbMl.Sql.Quoting

/-!
# Schema: index expressions that are columns

A unique index counts as a UNIQUE constraint if its expressions are columns. An expression is taken
for a column by its first and last characters, or by its being made of word characters.

## Main definitions

* `Identifier`: a text is one identifier, in SQL's lexical grammar
* `Paired`: the quotes in a text come in pairs
* `Recognizable`: the texts on which the recognition is right

## Main results

* `indexColumn_quote`: a quoted name is recognized
* `indexColumn_iff`: which texts are recognized as what they denote
-/

namespace DuckdbMl.Schema

open Sql (quote toList_quote)
open Reading (doubled)

/-! ### SQL's lexical grammar -/

/-- A letter, a digit or an underscore. -/
def wordChar (c : Char) : Bool := c.isAlphanum || c == '_'

/-- The text is the identifier `name`: bare, not beginning with a digit, or between quotes that are
doubled inside. -/
inductive Identifier : String → String → Prop
  | bare {s : String} (hne : s ≠ "") (hword : ∀ c ∈ s.toList, wordChar c = true)
      (hdigit : ∀ c ∈ s.toList.head?, c.isDigit = false) : Identifier s s
  | quoted (name : String) : Identifier (quote name) name

/-- Quotes come in pairs, read from the left. -/
def Paired : List Char → Bool
  | '"' :: '"' :: rest => Paired rest
  | c :: rest => c != '"' && Paired rest
  | [] => true

/-- The text begins and ends with a quote. -/
def Enclosed (l : List Char) : Prop := 2 ≤ l.length ∧ l.head? = some '"' ∧ l.getLast? = some '"'

instance : DecidablePred Enclosed := fun _ => inferInstanceAs (Decidable (_ ∧ _ ∧ _))

/-- The text is not empty, begins with no digit if it is a word, and if it begins and ends with a
quote then those between come in pairs. -/
structure Recognizable (s : String) : Prop where
  nonempty : s ≠ ""
  word : (∀ c ∈ s.toList, wordChar c = true) → ∀ c ∈ s.toList.head?, c.isDigit = false
  paired : Enclosed s.toList → Paired (s.toList.drop 1).dropLast = true

/-! ### Quotes in pairs -/

section Pairs

variable {l : List Char} {s name : String}

theorem undouble_doubled (l : List Char) : undouble (doubled '"' l) = l := by
  induction l with
  | nil => rfl
  | cons c l ih =>
    rw [Reading.doubled_cons]
    split
    case isTrue hc =>
      rw [hc]
      change '"' :: undouble (doubled '"' l) = _
      rw [ih]
    case isFalse hc =>
      rw [List.singleton_append, undouble]
      · rw [ih]
      · exact fun _ h => absurd h hc

theorem paired_doubled (l : List Char) : Paired (doubled '"' l) = true := by
  induction l with
  | nil => rfl
  | cons c l ih =>
    rw [Reading.doubled_cons]
    split
    case isTrue hc => exact ih
    case isFalse hc =>
      rw [List.singleton_append, Paired]
      · simp [hc, ih]
      · exact fun _ h => absurd h hc

/-- What quotes in pairs were doubled from. -/
theorem doubled_undouble (h : Paired l = true) : doubled '"' (undouble l) = l := by
  fun_induction Paired l with
  | case1 rest ih =>
    rw [undouble, Reading.doubled_cons, if_pos rfl, ih h]
    rfl
  | case2 c rest hne ih =>
    obtain ⟨hc, hrest⟩ := Bool.and_eq_true_iff.mp h
    have hc : c ≠ '"' := bne_iff_ne.mp hc
    rw [undouble, Reading.doubled_cons, if_neg hc, ih hrest, List.singleton_append]
    exact hne
  | case3 => rfl

/-- A text that begins and ends with a quote has the rest between them. -/
theorem enclosed_iff : Enclosed l ↔ ∃ m, l = '"' :: m ++ ['"'] := by
  constructor
  · rintro ⟨hlen, hhead, hlast⟩
    obtain ⟨c, l, rfl⟩ := List.exists_cons_of_length_pos (Nat.lt_of_lt_of_le (by decide) hlen)
    obtain rfl : c = '"' := Option.some_inj.mp hhead
    have hne : l ≠ [] := by
      rintro rfl
      simp at hlen
    refine ⟨l.dropLast, ?_⟩
    rw [List.getLast?_cons_of_ne_nil hne, List.getLast?_eq_some_getLast hne] at hlast
    rw [List.cons_append, ← Option.some_inj.mp hlast, List.dropLast_append_getLast]
  · rintro ⟨m, rfl⟩
    exact ⟨by simp, rfl, List.getLast?_concat ..⟩

theorem enclosed_quote (name : String) : Enclosed (quote name).toList :=
  enclosed_iff.mpr ⟨_, toList_quote name⟩

theorem indexColumn_of_enclosed (h : Enclosed s.toList) :
    indexColumn s = some (String.ofList (undouble (s.toList.drop 1).dropLast)) :=
  if_pos h

theorem indexColumn_of_word (h : ¬ Enclosed s.toList) (hw : ∀ c ∈ s.toList, wordChar c = true) :
    indexColumn s = some s := by
  have hall : (s.toList.all fun c => c.isAlphanum || c == '_') = true := List.all_eq_true.mpr hw
  exact (if_neg h).trans (if_pos hall)

theorem indexColumn_of_other (h : ¬ Enclosed s.toList)
    (hw : ¬ ∀ c ∈ s.toList, wordChar c = true) : indexColumn s = none := by
  have hall : ¬ (s.toList.all fun c => c.isAlphanum || c == '_') = true :=
    fun h => hw (List.all_eq_true.mp h)
  exact (if_neg h).trans (if_neg hall)

/-- **A quoted name is recognized.** -/
theorem indexColumn_quote (name : String) : indexColumn (quote name) = some name := by
  rw [indexColumn_of_enclosed (enclosed_quote name), toList_quote]
  have hmid : (('"' :: doubled '"' name.toList ++ ['"']).drop 1).dropLast =
      doubled '"' name.toList := by simp
  rw [hmid, undouble_doubled, String.ofList_toList]

/-- A text with a quote is no bare identifier. -/
theorem not_word_of_enclosed (h : Enclosed s.toList) : ¬ ∀ c ∈ s.toList, wordChar c = true := by
  obtain ⟨m, hm⟩ := enclosed_iff.mp h
  intro hw
  have := hw '"' (by simp [hm])
  revert this
  decide

/-- Two quoted names are the same text only if they are the same. -/
theorem quote_injective : Function.Injective quote := fun a b h =>
  Option.some_inj.mp ((indexColumn_quote a).symm.trans (h ▸ indexColumn_quote b))

/-- Between quotes the identifiers are the quoted names. -/
theorem identifier_iff_of_enclosed (h : Enclosed s.toList) : Identifier s name ↔ s = quote name := by
  constructor
  · intro hi
    cases hi with
    | bare hne hword hdigit => exact absurd hword (not_word_of_enclosed h)
    | quoted => rfl
  · rintro rfl
    exact .quoted name

/-- Elsewhere they are the bare ones. -/
theorem identifier_iff_of_not_enclosed (h : ¬ Enclosed s.toList) :
    Identifier s name ↔ name = s ∧ s ≠ "" ∧ (∀ c ∈ s.toList, wordChar c = true) ∧
      ∀ c ∈ s.toList.head?, c.isDigit = false := by
  constructor
  · intro hi
    cases hi with
    | bare hne hword hdigit => exact ⟨rfl, hne, hword, hdigit⟩
    | quoted => exact absurd (enclosed_quote name) h
  · rintro ⟨rfl, hne, hword, hdigit⟩
    exact .bare hne hword hdigit

end Pairs

/-- **Index columns are recognized exactly where the text is recognizable.** The recognition gives
the identifier that a text is, and none for another text, if and only if the text is not empty, is
no word that begins with a digit, and has its inner quotes in pairs if it begins and ends with one. -/
theorem indexColumn_iff (s : String) :
    (∀ name, indexColumn s = some name ↔ Identifier s name) ↔ Recognizable s := by
  by_cases henclosed : Enclosed s.toList
  · have hne : s ≠ "" := by
      rintro rfl
      simp [Enclosed] at henclosed
    have hword := not_word_of_enclosed henclosed
    constructor
    · intro h
      refine ⟨hne, fun hw => absurd hw hword, fun _ => ?_⟩
      have hi := (h _).mp (indexColumn_of_enclosed henclosed)
      rw [identifier_iff_of_enclosed henclosed] at hi
      rw [hi, toList_quote]
      simpa using paired_doubled _
    · intro h name
      -- paired quotes are the doubled quotes of a name, which they determine
      obtain ⟨m, hm⟩ := enclosed_iff.mp henclosed
      have hmid : (s.toList.drop 1).dropLast = m := by simp [hm]
      have hpaired := h.paired henclosed
      rw [hmid] at hpaired
      have hs : s = quote (String.ofList (undouble m)) := by
        apply String.toList_injective
        rw [toList_quote, String.toList_ofList, doubled_undouble hpaired, hm]
      rw [identifier_iff_of_enclosed henclosed, indexColumn_of_enclosed henclosed, hmid,
        Option.some_inj]
      constructor
      · intro hname
        rwa [← hname]
      · intro hname
        exact quote_injective (hs.symm.trans hname)
  · simp only [identifier_iff_of_not_enclosed henclosed]
    by_cases hw : ∀ c ∈ s.toList, wordChar c = true
    · rw [indexColumn_of_word henclosed hw]
      constructor
      · intro h
        obtain ⟨-, hne, -, hdigit⟩ := (h s).mp rfl
        exact ⟨hne, fun _ => hdigit, fun h => absurd h henclosed⟩
      · intro h name
        constructor
        · rintro ⟨⟩
          exact ⟨rfl, h.nonempty, hw, h.word hw⟩
        · rintro ⟨rfl, -⟩
          rfl
    · rw [indexColumn_of_other henclosed hw]
      have hne : s ≠ "" := by
        rintro rfl
        simp at hw
      constructor
      · exact fun _ => ⟨hne, fun h => absurd h hw, fun h => absurd h henclosed⟩
      · intro _ name
        constructor
        · intro h
          cases h
        · rintro ⟨-, -, hword, -⟩
          exact absurd hword hw

/-- Two quoted names with an operator between them are taken for one name. -/
theorem indexColumn_composition :
    indexColumn "\"first name\" || \"last name\"" = some "first name\" || \"last name" ∧
      ¬ ∃ name, Identifier "\"first name\" || \"last name\"" name := by
  refine ⟨by decide, fun ⟨name, hi⟩ => ?_⟩
  have henclosed : Enclosed "\"first name\" || \"last name\"".toList := by decide
  rw [identifier_iff_of_enclosed henclosed] at hi
  have hpaired := paired_doubled name.toList
  have hmid : (("\"first name\" || \"last name\"".toList).drop 1).dropLast =
      doubled '"' name.toList := by
    rw [hi, toList_quote]
    simp
  rw [← hmid] at hpaired
  revert hpaired
  decide

end DuckdbMl.Schema
