import DuckdbMl.Sql.Render

/-!
# Typed SQL: literals

A literal node carries its rendered text, and its spelling as a quoted SQL constant when it has
one.

## Main definitions

* `Value`: a value of each scalar
* `scalarNode`: the literal of a value
* `PublicLiteral`: a literal that the constructors build

## Main results

* `constant_of_publicLiteral`: a constant spelling is a quoted string
-/

namespace DuckdbMl.Sql

/-- A string between single quotes, those inside doubled. -/
def quoteString (s : String) : String :=
  "'" ++ String.ofList (s.toList.flatMap fun c => if c = '\'' then ['\'', '\''] else [c]) ++ "'"

/-- What `%.17g` prints of a finite double. -/
def Digits : Type := { s : String // ∀ c ∈ s.toList, c ∈ "0123456789+-.e".toList }

/-- A floating-point number as it prints. -/
inductive Floating
  | nan
  | infinite (negative : Bool)
  | finite (digits : Digits)

def floatText : Floating → String
  | .nan => "'nan'"
  | .infinite negative => if negative then "'-inf'" else "'inf'"
  | .finite digits => "'" ++ digits.1 ++ "'"

/-- A value of each scalar. A date counts days, a timestamp its unit since the epoch. -/
inductive Value
  | bool (b : Bool)
  | int8 (n : Int8)
  | int16 (n : Int16)
  | int32 (n : Int32)
  | int64 (n : Int64)
  | float32 (f : Floating)
  | float64 (f : Floating)
  | string (s : String)
  | blob (bytes : List UInt8)
  | date (n : Int32)
  | timestampS (n : Int64)
  | timestampMs (n : Int64)
  | timestampUs (n : Int64)
  | timestampNs (n : Int64)
  | timestampTz (n : Int64)

/-- `text` is a numeric literal or a quoted string; the constant spelling quotes it. -/
def typedNode (scalar : Scalar) (text : String) : Node :=
  .literal ("CAST(" ++ text ++ " AS " ++ scalar.name ++ ")")
    (some (if text.toList.head? = some '\'' then text else quoteString text))

def boolNode (b : Bool) : Node :=
  .literal (if b then "TRUE" else "FALSE") (some (if b then "'true'" else "'false'"))

def stringNode (s : String) : Node := .literal (quoteString s) (some (quoteString s))

def hexDigit (n : ℕ) : Char := "0123456789ABCDEF".toList.getD n '0'

/-- Every byte as `\xNN`. -/
def escapedBytes (bytes : List UInt8) : String :=
  String.ofList (bytes.flatMap fun b =>
    ['\\', 'x', hexDigit (b.toNat / 16), hexDigit (b.toNat % 16)])

def blobNode (bytes : List UInt8) : Node :=
  .literal ("CAST('" ++ escapedBytes bytes ++ "' AS BLOB)") (some ("'" ++ escapedBytes bytes ++ "'"))

/-- A value built by a function, which has no constant spelling. -/
def functionNode (sql : String) : Node := .literal sql none

def bigint (n : Int64) : String := "CAST(" ++ toString n.toInt ++ " AS BIGINT)"

/-- The literal of a value. -/
def scalarNode : Value → Node
  | .bool b => boolNode b
  | .int8 n => typedNode .int8 (toString n.toInt)
  | .int16 n => typedNode .int16 (toString n.toInt)
  | .int32 n => typedNode .int32 (toString n.toInt)
  | .int64 n => typedNode .int64 (toString n.toInt)
  | .float32 f => typedNode .float32 (floatText f)
  | .float64 f => typedNode .float64 (floatText f)
  | .string s => stringNode s
  | .blob bytes => blobNode bytes
  | .date n => functionNode
    ("CAST(DATE '1970-01-01' + CAST(" ++ toString n.toInt ++ " AS INTEGER) AS DATE)")
  | .timestampUs n => functionNode ("make_timestamp(" ++ bigint n ++ ")")
  | .timestampMs n => functionNode ("CAST(epoch_ms(" ++ bigint n ++ ") AS TIMESTAMP_MS)")
  | .timestampS n => functionNode
    ("CAST(make_timestamp(" ++ bigint n ++ " * 1000000) AS TIMESTAMP_S)")
  | .timestampNs n => functionNode ("make_timestamp_ns(" ++ bigint n ++ ")")
  | .timestampTz n => functionNode ("(to_timestamp(0) + to_microseconds(" ++ bigint n ++ "))")

/-- A literal, if the expression is one, is that of a value. -/
def PublicLiteral (a : Node) : Prop :=
  ∀ sql constant, a = .literal sql constant → ∃ v, a = scalarNode v

/-! ### Constant spellings -/

theorem quoteString_of_plain {s : String} (h : '\'' ∉ s.toList) :
    quoteString s = "'" ++ s ++ "'" := by
  have hmap : (s.toList.flatMap fun c => if c = '\'' then ['\'', '\''] else [c]) = s.toList := by
    rw [List.flatMap_congr (g := fun c => [c]) fun c hc => if_neg (ne_of_mem_of_not_mem hc h),
      List.flatMap_singleton']
  rw [quoteString, hmap, String.ofList_toList]

/-- An integer is written in digits, after a minus sign if it is negative. -/
theorem mem_toString_int {n : ℤ} {c : Char} (h : c ∈ (toString n).toList) :
    c = '-' ∨ c.isDigit = true := by
  have hdigits : ∀ m : ℕ, c ∈ m.repr.toList → c.isDigit = true := fun m hm =>
    Nat.isDigit_of_mem_toDigits (b := 10) (by decide) (by decide) (Nat.toList_repr ▸ hm)
  rw [Int.toString_eq_repr, Int.repr_eq_if] at h
  split at h
  · exact .inr (hdigits _ h)
  · rw [String.toList_append, List.mem_append] at h
    exact h.imp (by simp) (hdigits _)

theorem quote_notMem_toString_int (n : ℤ) : '\'' ∉ (toString n).toList := fun h =>
  (mem_toString_int h).elim (by decide) (by decide)

theorem quote_notMem_digits (d : Digits) : '\'' ∉ d.1.toList := fun h => by
  have := d.2 _ h
  revert this
  decide

theorem hexDigit_ne_quote (n : ℕ) : hexDigit n ≠ '\'' := by
  intro h
  have hm : hexDigit n ∈ '0' :: "0123456789ABCDEF".toList := by
    rw [hexDigit, List.getD_eq_getElem?_getD]
    cases hg : "0123456789ABCDEF".toList[n]? with
    | none => exact List.mem_cons_self ..
    | some c => exact List.mem_cons_of_mem _ (List.mem_of_getElem? hg)
  rw [h] at hm
  revert hm
  decide

theorem quote_notMem_escapedBytes (bytes : List UInt8) : '\'' ∉ (escapedBytes bytes).toList := by
  intro h
  rw [escapedBytes, String.toList_ofList, List.mem_flatMap] at h
  obtain ⟨b, -, hb⟩ := h
  simp only [List.mem_cons, List.not_mem_nil, or_false] at hb
  rcases hb with hb | hb | hb | hb
  · exact absurd hb (by decide)
  · exact absurd hb (by decide)
  · exact hexDigit_ne_quote _ hb.symm
  · exact hexDigit_ne_quote _ hb.symm

/-- A text without quotes is quoted; a quoted one is kept. -/
theorem constant_typedNode {text : String}
    (h : '\'' ∉ text.toList ∨ ∃ s, text = quoteString s) :
    ∃ s, (if text.toList.head? = some '\'' then text else quoteString text) = quoteString s := by
  split
  case isFalse => exact ⟨text, rfl⟩
  case isTrue hq =>
    rcases h with h | h
    · exact absurd (List.mem_of_head? hq) h
    · exact h

theorem floatText_eq (f : Floating) : ∃ s, floatText f = quoteString s := by
  match f with
  | .nan => exact ⟨"nan", by decide⟩
  | .infinite true => exact ⟨"-inf", by decide⟩
  | .infinite false => exact ⟨"inf", by decide⟩
  | .finite digits => exact ⟨digits.1, (quoteString_of_plain (quote_notMem_digits digits)).symm⟩

/-- **A constant spelling is a quoted string.** -/
theorem constant_of_publicLiteral {sql constant : String}
    (h : PublicLiteral (.literal sql (some constant))) : ∃ s, constant = quoteString s := by
  have htyped : ∀ scalar text, ('\'' ∉ text.toList ∨ ∃ s, text = quoteString s) →
      typedNode scalar text = .literal sql (some constant) → ∃ s, constant = quoteString s := by
    intro scalar text ht he
    obtain ⟨s, hs⟩ := constant_typedNode ht
    rw [typedNode, Node.literal.injEq, Option.some_inj] at he
    exact ⟨s, he.2 ▸ hs⟩
  obtain ⟨v, hv⟩ := h _ _ rfl
  symm at hv
  cases v with
  | bool b =>
    cases b
    · exact ⟨"false", by rw [← Option.some_inj, ← (Node.literal.inj hv).2]; decide⟩
    · exact ⟨"true", by rw [← Option.some_inj, ← (Node.literal.inj hv).2]; decide⟩
  | int8 n => exact htyped _ _ (.inl (quote_notMem_toString_int _)) hv
  | int16 n => exact htyped _ _ (.inl (quote_notMem_toString_int _)) hv
  | int32 n => exact htyped _ _ (.inl (quote_notMem_toString_int _)) hv
  | int64 n => exact htyped _ _ (.inl (quote_notMem_toString_int _)) hv
  | float32 f => exact htyped _ _ (.inr (floatText_eq f)) hv
  | float64 f => exact htyped _ _ (.inr (floatText_eq f)) hv
  | string s => exact ⟨s, Option.some_inj.mp (Node.literal.inj hv).2.symm⟩
  | blob bytes =>
    refine ⟨escapedBytes bytes, ?_⟩
    rw [quoteString_of_plain (quote_notMem_escapedBytes bytes)]
    exact Option.some_inj.mp (Node.literal.inj hv).2.symm
  | date n => cases (Node.literal.inj hv).2
  | timestampS n => cases (Node.literal.inj hv).2
  | timestampMs n => cases (Node.literal.inj hv).2
  | timestampUs n => cases (Node.literal.inj hv).2
  | timestampNs n => cases (Node.literal.inj hv).2
  | timestampTz n => cases (Node.literal.inj hv).2

end DuckdbMl.Sql
