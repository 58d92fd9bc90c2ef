import DuckdbMl.Reading.Basic
import DuckdbMl.Sql.Literal

/-!
# Typed SQL: quoted texts

Names, strings and paths are written between quotes, blobs byte by byte inside a quoted string.
OCaml's byte strings are the strings of characters below 256; nothing here depends on that bound.

## Main definitions

* `literal`: a path in SQL text
* `lexToken`, `lexBlob`: SQL's lexical rules for quoted texts and for blobs
* `spelled`: the text that a literal spells

## Main results

* `lexToken_quoteString`, `lexToken_quote`, `lexBlob_blobNode`: quoted texts are read back
* `spelled_of_constant`: the constant spelling of a literal denotes what the literal spells
* `quoting_round_trip`: quoting confines its input
-/

namespace DuckdbMl.Sql

open Reading (doubled lexQuoted)

/-- A Parquet path between single quotes. -/
def literal (s : String) : String :=
  "'" ++ String.ofList (s.toList.flatMap fun c => if c = '\'' then ['\'', '\''] else [c]) ++ "'"

/-! ### SQL's lexical rules -/

/-- A token between quotes `q`, and what follows it. -/
def lexToken (q : Char) : List Char → Option (String × List Char)
  | [] => none
  | c :: w => if c = q then (lexQuoted q w).map fun r => (String.ofList r.1, r.2) else none

/-- What follows a fixed text. -/
def strip (p : String) (w : List Char) : Option (List Char) :=
  if p.toList.isPrefixOf w then some (w.drop p.toList.length) else none

def hexValue (c : Char) : Option ℕ :=
  if c.isDigit then some (c.toNat - '0'.toNat)
  else if 'A' ≤ c ∧ c ≤ 'F' then some (c.toNat - 'A'.toNat + 10)
  else if 'a' ≤ c ∧ c ≤ 'f' then some (c.toNat - 'a'.toNat + 10)
  else none

/-- The bytes of a string cast to BLOB: `\xNN` denotes a byte, and another ASCII character
itself. -/
def unescape : List Char → Option (List UInt8)
  | '\\' :: 'x' :: a :: b :: w => do
    let high ← hexValue a
    let low ← hexValue b
    return UInt8.ofNat (16 * high + low) :: (← unescape w)
  | c :: w => do
    if c = '\\' ∨ 128 ≤ c.toNat then none
    else return UInt8.ofNat c.toNat :: (← unescape w)
  | [] => some []

/-- A string cast to BLOB, and what follows it. -/
def lexBlob (w : List Char) : Option (List UInt8 × List Char) := do
  let w ← strip "CAST(" w
  let (text, w) ← lexToken '\'' w
  let w ← strip " AS BLOB)" w
  return (← unescape text.toList, w)

/-- The text that a literal spells: that of a string, of the string or number in a cast, or a
keyword in small letters. -/
def spelled (w : List Char) : Option String :=
  if w.head? = some '\'' then (lexToken '\'' w).map Prod.fst
  else
    match strip "CAST(" w with
    | some w =>
      if w.head? = some '\'' then (lexToken '\'' w).map Prod.fst
      else some (String.ofList (w.takeWhile (· ≠ ' ')))
    | none => some (String.ofList (w.map Char.toLower))

/-! ### Tokens -/

section Tokens

variable {s : String} {rest : List Char}

theorem toList_quote (s : String) : (quote s).toList = '"' :: doubled '"' s.toList ++ ['"'] := by
  simp [quote, doubled]

theorem toList_quoteString (s : String) :
    (quoteString s).toList = '\'' :: doubled '\'' s.toList ++ ['\''] := by
  simp [quoteString, doubled]

theorem lexToken_doubled {q : Char} (h : rest.head? ≠ some q) :
    lexToken q (q :: doubled q s.toList ++ [q] ++ rest) = some (s, rest) := by
  rw [List.append_assoc, List.singleton_append, List.cons_append, lexToken, if_pos rfl,
    Reading.lexQuoted_doubled h, Option.map_some, String.ofList_toList]

theorem lexToken_quote (h : rest.head? ≠ some '"') :
    lexToken '"' ((quote s).toList ++ rest) = some (s, rest) := by
  rw [toList_quote, lexToken_doubled h]

theorem lexToken_quoteString (h : rest.head? ≠ some '\'') :
    lexToken '\'' ((quoteString s).toList ++ rest) = some (s, rest) := by
  rw [toList_quoteString, lexToken_doubled h]

theorem strip_append (p : String) (w : List Char) : strip p (p.toList ++ w) = some w := by
  rw [strip, if_pos (List.isPrefixOf_iff_prefix.mpr (List.prefix_append ..)), List.drop_left]

end Tokens

/-! ### Blobs -/

theorem hexValue_hexDigit {n : ℕ} (h : n < 16) : hexValue (hexDigit n) = some n := by
  revert n
  decide

theorem unescape_escapedBytes (bytes : List UInt8) :
    unescape (escapedBytes bytes).toList = some bytes := by
  rw [escapedBytes, String.toList_ofList]
  induction bytes with
  | nil => rfl
  | cons b bytes ih =>
    have hb : b.toNat < 256 := b.toNat_lt
    have hhigh : hexValue (hexDigit (b.toNat / 16)) = some (b.toNat / 16) :=
      hexValue_hexDigit (by omega)
    have hlow : hexValue (hexDigit (b.toNat % 16)) = some (b.toNat % 16) :=
      hexValue_hexDigit (Nat.mod_lt _ (by decide))
    rw [List.flatMap_cons, List.cons_append, List.cons_append, List.cons_append,
      List.cons_append, List.nil_append, unescape, hhigh, hlow, ih, Option.bind_eq_bind,
      Option.bind_some, Option.bind_some, Nat.div_add_mod, UInt8.ofNat_toNat]
    rfl

/-- The SQL of a literal. -/
def Node.sql : Node → String
  | .literal sql _ => sql
  | _ => ""

theorem lexBlob_blobNode (bytes : List UInt8) (rest : List Char) :
    lexBlob ((blobNode bytes).sql.toList ++ rest) = some (bytes, rest) := by
  have hsql : (blobNode bytes).sql.toList ++ rest = "CAST(".toList ++
      ((quoteString (escapedBytes bytes)).toList ++ (" AS BLOB)".toList ++ rest)) := by
    rw [quoteString_of_plain (quote_notMem_escapedBytes bytes)]
    simp [blobNode, Node.sql]
  have htoken : lexToken '\'' ((quoteString (escapedBytes bytes)).toList ++
      (" AS BLOB)".toList ++ rest)) = some (escapedBytes bytes, " AS BLOB)".toList ++ rest) :=
    lexToken_quoteString (by simp)
  rw [lexBlob, hsql, strip_append, Option.bind_eq_bind, Option.bind_some, htoken,
    Option.bind_eq_bind, Option.bind_some]
  dsimp only
  rw [strip_append, Option.bind_some, unescape_escapedBytes]
  rfl

/-! ### Constant spellings -/

theorem lexToken_self (s : String) : lexToken '\'' (quoteString s).toList = some (s, []) := by
  have h : lexToken '\'' ((quoteString s).toList ++ []) = some (s, []) :=
    lexToken_quoteString (by simp)
  rwa [List.append_nil] at h

theorem spelled_quoteString (s : String) : spelled (quoteString s).toList = some s := by
  have hhead : (quoteString s).toList.head? = some '\'' := by
    rw [toList_quoteString]
    rfl
  rw [spelled, if_pos hhead, lexToken_self]
  rfl

/-- A quoted string in a cast. -/
theorem spelled_cast_quoteString (s after : String) :
    spelled ("CAST(" ++ quoteString s ++ " AS " ++ after).toList = some s := by
  have hsplit : ("CAST(" ++ quoteString s ++ " AS " ++ after).toList =
      "CAST(".toList ++ ((quoteString s).toList ++ (" AS " ++ after).toList) := by simp
  have hhead : ((quoteString s).toList ++ (" AS " ++ after).toList).head? = some '\'' := by
    rw [toList_quoteString]
    rfl
  have htoken : lexToken '\'' ((quoteString s).toList ++ (" AS " ++ after).toList) =
      some (s, (" AS " ++ after).toList) := lexToken_quoteString (by simp)
  rw [spelled, hsplit, strip_append, if_neg (by simp)]
  simp only [hhead, if_true, htoken, Option.map_some]

/-- A number in a cast. -/
theorem spelled_cast {text : String} (after : String) (hq : text.toList.head? ≠ some '\'')
    (hb : ' ' ∉ text.toList) :
    spelled ("CAST(" ++ text ++ " AS " ++ after).toList = some text := by
  have hsplit : ("CAST(" ++ text ++ " AS " ++ after).toList =
      "CAST(".toList ++ (text.toList ++ ' ' :: ("AS " ++ after).toList) := by simp
  have hhead : (text.toList ++ ' ' :: ("AS " ++ after).toList).head? ≠ some '\'' := by
    cases ht : text.toList with
    | nil => simp
    | cons c w => simpa [ht] using hq
  have htake : (text.toList ++ ' ' :: ("AS " ++ after).toList).takeWhile (· ≠ ' ') =
      text.toList := by
    rw [List.takeWhile_append_of_pos fun c hc => decide_eq_true (ne_of_mem_of_not_mem hc hb)]
    simp
  rw [spelled, hsplit, strip_append, if_neg (by simp)]
  simp only [if_neg hhead, htake, String.ofList_toList]

/-- A numeric literal: its constant spelling quotes its text. -/
theorem typedNode_number {scalar : Scalar} {text sql constant : String}
    (hq : '\'' ∉ text.toList) (hb : ' ' ∉ text.toList)
    (h : typedNode scalar text = .literal sql (some constant)) :
    ∃ t, lexToken '\'' constant.toList = some (t, []) ∧ spelled sql.toList = some t := by
  have hhead : text.toList.head? ≠ some '\'' := fun h => hq (List.mem_of_head? h)
  rw [typedNode, if_neg hhead, Node.literal.injEq, Option.some_inj] at h
  obtain ⟨rfl, rfl⟩ := h
  refine ⟨text, lexToken_self text, ?_⟩
  rw [String.append_assoc]
  exact spelled_cast _ hhead hb

/-- A literal whose text is quoted already: its constant spelling is that text. -/
theorem typedNode_quoted {scalar : Scalar} {s sql constant : String}
    (h : typedNode scalar (quoteString s) = .literal sql (some constant)) :
    ∃ t, lexToken '\'' constant.toList = some (t, []) ∧ spelled sql.toList = some t := by
  have hhead : (quoteString s).toList.head? = some '\'' := by
    rw [toList_quoteString]
    rfl
  rw [typedNode, if_pos hhead, Node.literal.injEq, Option.some_inj] at h
  obtain ⟨rfl, rfl⟩ := h
  refine ⟨s, lexToken_self s, ?_⟩
  rw [String.append_assoc]
  exact spelled_cast_quoteString s _

theorem blank_notMem_toString_int (n : ℤ) : ' ' ∉ (toString n).toList := fun h =>
  (mem_toString_int h).elim (by decide) (by decide)

/-- **The constant spelling of a literal denotes what the literal spells.** -/
theorem spelled_of_constant {v : Value} {sql constant : String}
    (h : scalarNode v = .literal sql (some constant)) :
    ∃ t, lexToken '\'' constant.toList = some (t, []) ∧ spelled sql.toList = some t := by
  have hint : ∀ {scalar : Scalar} {n : ℤ},
      typedNode scalar (toString n) = .literal sql (some constant) →
      ∃ t, lexToken '\'' constant.toList = some (t, []) ∧ spelled sql.toList = some t :=
    typedNode_number (quote_notMem_toString_int _) (blank_notMem_toString_int _)
  have hfloat : ∀ {scalar : Scalar} {f : Floating},
      typedNode scalar (floatText f) = .literal sql (some constant) →
      ∃ t, lexToken '\'' constant.toList = some (t, []) ∧ spelled sql.toList = some t := by
    intro scalar f hf
    obtain ⟨s, hs⟩ := floatText_eq f
    rw [hs] at hf
    exact typedNode_quoted hf
  cases v with
  | bool b =>
    obtain ⟨rfl, hconstant⟩ := Node.literal.inj h
    obtain rfl := Option.some_inj.mp hconstant
    cases b
    · exact ⟨"false", by decide, by decide⟩
    · exact ⟨"true", by decide, by decide⟩
  | int8 n => exact hint h
  | int16 n => exact hint h
  | int32 n => exact hint h
  | int64 n => exact hint h
  | float32 f => exact hfloat h
  | float64 f => exact hfloat h
  | string s =>
    obtain ⟨rfl, hconstant⟩ := Node.literal.inj h
    obtain rfl := Option.some_inj.mp hconstant
    exact ⟨s, lexToken_self s, spelled_quoteString s⟩
  | blob bytes =>
    obtain ⟨rfl, hconstant⟩ := Node.literal.inj h
    obtain rfl := Option.some_inj.mp hconstant
    rw [← quoteString_of_plain (quote_notMem_escapedBytes bytes)]
    refine ⟨escapedBytes bytes, lexToken_self _, ?_⟩
    have hsql : "CAST('" ++ escapedBytes bytes ++ "' AS BLOB)" =
        "CAST(" ++ quoteString (escapedBytes bytes) ++ " AS " ++ "BLOB)" := by
      rw [quoteString_of_plain (quote_notMem_escapedBytes bytes)]
      apply String.toList_injective
      simp
    rw [hsql]
    exact spelled_cast_quoteString _ _
  | date n | timestampS n | timestampMs n | timestampUs n | timestampNs n | timestampTz n =>
    cases (Node.literal.inj h).2

/-! ### The round trip -/

/-- **Quoting is a round trip and confines its input.** Names, strings, paths and blobs are read
by SQL's lexical rules as what was quoted, and reading stops where the quoted text does, whatever
follows that does not go on with the same quote; a constant spelling denotes the text that its
literal spells. -/
theorem quoting_round_trip (s : String) (bytes : List UInt8) (rest : List Char) :
    (rest.head? ≠ some '"' → lexToken '"' ((quote s).toList ++ rest) = some (s, rest)) ∧
    (rest.head? ≠ some '\'' →
      lexToken '\'' ((quoteString s).toList ++ rest) = some (s, rest) ∧
      lexToken '\'' ((literal s).toList ++ rest) = some (s, rest)) ∧
    lexBlob ((blobNode bytes).sql.toList ++ rest) = some (bytes, rest) ∧
    ∀ v sql constant, scalarNode v = .literal sql (some constant) →
      ∃ t, lexToken '\'' constant.toList = some (t, []) ∧ spelled sql.toList = some t :=
  ⟨lexToken_quote, fun h => ⟨lexToken_quoteString h, lexToken_quoteString h⟩,
    lexBlob_blobNode bytes rest, fun _ _ _ => spelled_of_constant⟩

theorem quoting_round_trip_quotes :
    lexToken '"' ((quote "\"a\"\"").toList ++ ['.']) = some ("\"a\"\"", ['.']) ∧
      lexToken '\'' ((quoteString "'; --").toList ++ [')']) = some ("'; --", [')']) ∧
      ∃ t, lexToken '\'' "'-1'".toList = some (t, []) ∧
        spelled "CAST(-1 AS TINYINT)".toList = some t :=
  ⟨(quoting_round_trip "\"a\"\"" [] ['.']).1 (by decide),
    ((quoting_round_trip "'; --" [] [')']).2.1 (by decide)).1,
    (quoting_round_trip "" [] []).2.2.2 (.int8 (-1)) _ _
      (congrArg₂ Node.literal (by decide) (by decide))⟩

end DuckdbMl.Sql
