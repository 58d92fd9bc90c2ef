import DuckdbMl.Crossing.RoundTrip
import DuckdbMl.Ieee.Basic

/-!
# Custom codecs

A custom codec is a layer over another codec without NULL. The encoders and decoders are callbacks:
they have effects, and may fail.

## Main definitions

* `Plan`, `custom`: codecs as they are composed
* `Layers`: the layers of a codec over a scalar
* `Layers.encodeAll`, `Layers.decodeAll`: the layers one after the other
* `Layers.traced`: the same layers with a record of those that run

## Main results

* `encodePlan_eq`, `decodePlan_eq`: a codec runs its layers, the outermost first to encode and
  last to decode
* `encode_traced`, `decode_traced`: and each of them once
* `Layers.decode_encode`: layers that undo their encoding are a codec that does
* `scalar_crossing`: every value of a scalar, and every value that a codec encodes, crosses
-/

namespace DuckdbMl.Crossing

open Effects
open DuckdbMl.Decode (Floats Carrier Scalar.nativeId)
open DuckdbMl.Appender (Engine)
open DuckdbMl.Sql (Scalar)

/-- A codec without NULL over a scalar. `S` is what callbacks have effects on. -/
inductive Plan (F : Floats) (S : Type) (s : Scalar) : Type → Type 1
  | identity : Plan F S s (Carrier F s)
  | plan {α : Type} (decode : Carrier F s → Comp S Reason α)
      (encode : α → Comp S Reason (Carrier F s)) : Plan F S s α

variable {F : Floats} {S : Type} {s : Scalar} {α β : Type}

/-- `Codec.custom`. -/
def custom (encode : β → Comp S Reason α) (decode : α → Comp S Reason β) :
    Plan F S s α → Plan F S s β
  | .identity => .plan decode encode
  | .plan decode' encode' => .plan (fun b => decode' b >>= decode) fun a => encode a >>= encode'

def encodePlan : Plan F S s α → α → Comp S Reason (Carrier F s)
  | .identity, v => pure v
  | .plan _ encode, v => encode v

def decodePlan : Plan F S s α → Carrier F s → Comp S Reason α
  | .identity, b => pure b
  | .plan decode _, b => decode b

/-- The layers of a custom codec. -/
inductive Layers (F : Floats) (S : Type) (s : Scalar) : Type → Type 1
  | scalar : Layers F S s (Carrier F s)
  | layer {α β : Type} (inner : Layers F S s α) (encode : β → Comp S Reason α)
      (decode : α → Comp S Reason β) : Layers F S s β

def Layers.plan {α : Type} : Layers F S s α → Plan F S s α
  | .scalar => .identity
  | .layer inner encode decode => custom encode decode inner.plan

/-- The layers from the outermost in. -/
def Layers.encodeAll {α : Type} : Layers F S s α → α → Comp S Reason (Carrier F s)
  | .scalar, v => pure v
  | .layer inner encode _, a => encode a >>= inner.encodeAll

/-- The layers from the innermost out. -/
def Layers.decodeAll {α : Type} : Layers F S s α → Carrier F s → Comp S Reason α
  | .scalar, v => pure v
  | .layer inner _ decode, v => inner.decodeAll v >>= decode

def Layers.depth {α : Type} : Layers F S s α → ℕ
  | .scalar => 0
  | .layer inner _ _ => inner.depth + 1

/-- The callback, with its position in the record of those that have run. -/
def mark (position : ℕ) (c : Comp S Reason α) : Comp (S × List ℕ) Reason α := fun t =>
  ((c t.1).1, ((c t.1).2, t.2 ++ [position]))

/-- The layers that record their positions, counted from the scalar outwards. -/
def Layers.traced {α : Type} : Layers F S s α → Layers F (S × List ℕ) s α
  | .scalar => .scalar
  | .layer inner encode decode =>
    .layer inner.traced (fun a => mark inner.depth (encode a)) fun b => mark inner.depth (decode b)

/-- `c'` is `c` with a record: it adds some of `positions` in their order, all of them when it
returns. -/
def Records (c : Comp S Reason α) (c' : Comp (S × List ℕ) Reason α) (positions : List ℕ) : Prop :=
  ∀ σ log, ∃ j ≤ positions.length,
    c' (σ, log) = ((c σ).1, ((c σ).2, log ++ positions.take j)) ∧
      ∀ a, (c σ).1 = .ok a → j = positions.length

/-- Each layer decodes what it has encoded, whatever the callbacks find then. -/
def Layers.Undoes {α : Type} : Layers F S s α → Prop
  | .scalar => True
  | .layer inner encode decode => inner.Undoes ∧
    ∀ a b σ, (encode a σ).1 = .ok b → ∀ τ, (decode b τ).1 = .ok a

theorem bind_pure_comp (c : Comp S Reason α) : c >>= pure = c := by
  funext σ
  rcases hc : c σ with ⟨_ | a, τ⟩
  · exact Comp.bind_error hc
  · exact Comp.bind_ok hc

/-- The outer layer encodes first. -/
theorem encode_custom (encode : β → Comp S Reason α) (decode : α → Comp S Reason β)
    (p : Plan F S s α) (a : β) :
    encodePlan (custom encode decode p) a = encode a >>= encodePlan p := by
  cases p with
  | identity => exact (bind_pure_comp _).symm
  | plan => rfl

/-- The outer layer decodes last. -/
theorem decode_custom (encode : β → Comp S Reason α) (decode : α → Comp S Reason β)
    (p : Plan F S s α) (b : Carrier F s) :
    decodePlan (custom encode decode p) b = decodePlan p b >>= decode := by
  cases p with
  | identity => rfl
  | plan => rfl

/-- A codec encodes through its layers. -/
theorem encodePlan_eq (L : Layers F S s α) : encodePlan L.plan = L.encodeAll := by
  induction L with
  | scalar => rfl
  | layer inner encode decode ih =>
    funext a
    rw [Layers.plan, encode_custom, ih, Layers.encodeAll]

/-- A codec decodes through its layers. -/
theorem decodePlan_eq (L : Layers F S s α) : decodePlan L.plan = L.decodeAll := by
  induction L with
  | scalar => rfl
  | layer inner encode decode ih =>
    funext v
    rw [Layers.plan, decode_custom, ih, Layers.decodeAll]

/-- **Encoding runs the layers from the outermost in**, up to the first that fails. -/
theorem encode_traced (L : Layers F S s α) (a : α) :
    Records (encodePlan L.plan a) (encodePlan L.traced.plan a) (List.range L.depth).reverse := by
  intro σ log
  induction L generalizing σ log with
  | scalar => exact ⟨0, Nat.le_refl 0, congrArg (fun log => (_, (σ, log))) (List.append_nil _).symm,
      fun _ _ => rfl⟩
  | layer inner encode decode ih =>
    simp only [Layers.traced, Layers.plan, Layers.depth, encode_custom, List.range_succ,
      List.reverse_append, List.reverse_cons, List.reverse_nil, List.nil_append,
      List.singleton_append, List.length_cons]
    rcases he : encode a σ with ⟨e | b, τ⟩
    · have hmark : mark inner.depth (encode a) (σ, log) =
          (.error e, (τ, log ++ [inner.depth])) := by rw [mark, he]
      rw [Comp.bind_error he, Comp.bind_error hmark]
      exact ⟨1, Nat.le_add_left 1 _, rfl, fun _ h => by cases h⟩
    · have hmark : mark inner.depth (encode a) (σ, log) =
          (.ok b, (τ, log ++ [inner.depth])) := by rw [mark, he]
      obtain ⟨j, hj, hrun, hall⟩ := ih b τ (log ++ [inner.depth])
      rw [Comp.bind_ok he, Comp.bind_ok hmark, hrun, List.append_assoc]
      exact ⟨j + 1, Nat.succ_le_succ hj, rfl, fun c hc => by rw [hall c hc]⟩

/-- **Decoding runs the layers from the innermost out**, up to the first that fails. -/
theorem decode_traced (L : Layers F S s α) (b : Carrier F s) :
    Records (decodePlan L.plan b) (decodePlan L.traced.plan b) (List.range L.depth) := by
  intro σ log
  induction L with
  | scalar => exact ⟨0, Nat.le_refl 0, congrArg (fun log => (_, (σ, log))) (List.append_nil _).symm,
      fun _ _ => rfl⟩
  | layer inner encode decode ih =>
    simp only [Layers.traced, Layers.plan, Layers.depth, decode_custom]
    obtain ⟨j, hj, hrun, hall⟩ := ih
    have hlength : (List.range inner.depth).length = inner.depth := List.length_range
    rcases hi : decodePlan inner.plan b σ with ⟨e | a, τ⟩
    · rw [hi] at hrun
      rw [Comp.bind_error hi, Comp.bind_error hrun, List.range_succ]
      refine ⟨j, ?_, ?_, fun _ h => by cases h⟩
      · rw [List.length_append]
        exact Nat.le_add_right_of_le hj
      · rw [List.take_append_of_le_length hj]
    · rw [hi] at hrun hall
      obtain rfl : j = inner.depth := (hall a rfl).trans hlength
      rw [Comp.bind_ok hi, Comp.bind_ok hrun]
      refine ⟨(List.range (inner.depth + 1)).length, Nat.le_refl _, ?_, fun _ _ => rfl⟩
      rw [mark, List.take_length, List.take_of_length_le (Nat.le_of_eq hlength), List.range_succ,
        List.append_assoc]

/-- **Layers that undo their encoding** are a codec that does. -/
theorem Layers.decode_encode (L : Layers F S s α) (h : L.Undoes) (a : α) (c : Carrier F s) (σ : S)
    (he : (encodePlan L.plan a σ).1 = .ok c) (τ : S) : (decodePlan L.plan c τ).1 = .ok a := by
  induction L generalizing σ τ with
  | scalar =>
    cases he
    rfl
  | layer inner encode decode ih =>
    obtain ⟨hinner, hlayer⟩ := h
    rw [Layers.plan, encode_custom] at he
    rw [Layers.plan, decode_custom]
    rcases hb : encode a σ with ⟨e | b, σ'⟩
    · rw [Comp.bind_error hb] at he
      cases he
    · rw [Comp.bind_ok hb] at he
      have hdecode := ih hinner b σ' he τ
      rcases hd : decodePlan inner.plan c τ with ⟨r, τ'⟩
      rw [hd] at hdecode
      cases hdecode
      rw [Comp.bind_ok hd]
      exact hlayer a b σ (by rw [hb]) τ'

/-- **Scalars and custom codecs cross the boundary.** Every value of every scalar crosses. A custom
codec is its layers, from the outermost in when it encodes and from the innermost out when it
decodes; each runs once, up to the first that fails. When each layer decodes what it has encoded, a
value whose encoding crosses is decoded from every row that holds it. -/
theorem scalar_crossing (B : Bits F) (G : Engine) :
    (∀ (s : Scalar) (v : Carrier F s), Accepted G s v → Crosses B G s v) ∧
      ∀ (S : Type) (s : Scalar) (α : Type) (L : Layers F S s α),
        encodePlan L.plan = L.encodeAll ∧ decodePlan L.plan = L.decodeAll ∧
        (∀ a, Records (encodePlan L.plan a) (encodePlan L.traced.plan a)
          (List.range L.depth).reverse) ∧
        (∀ b, Records (decodePlan L.plan b) (decodePlan L.traced.plan b) (List.range L.depth)) ∧
        (L.Undoes → ∀ a c σ, (encodePlan L.plan a σ).1 = .ok c →
          ∀ b rows row, Holds b row (⟨s, c⟩ : Datum F) → row < rows →
            ∀ τ, (decodePlan L.plan c τ).1 = .ok a ∧
              (decodePlan L.plan (read b row s) τ).1 = .ok a ∧
              (decodePlan L.plan (base b rows row s) τ).1 = .ok a) := by
  refine ⟨fun s v => crosses B G, fun S s α L => ⟨encodePlan_eq L, decodePlan_eq L, encode_traced L,
    decode_traced L, ?_⟩⟩
  intro hundo a c σ he b rows row hholds hr τ
  have hdecode := L.decode_encode hundo a c σ he τ
  rw [read_eq hholds, base_eq hholds hr]
  exact ⟨hdecode, hdecode, hdecode⟩

/-! ### An instance -/

/-- The floating-point types of the machine. -/
def ieee : Floats where
  single := BitVec 32
  double := BitVec 64
  singleOfBits := id
  doubleOfBits := id
  widen := Ieee.widen
  narrow := Ieee.narrow
  narrow_widen := Ieee.narrow_widen

def ieeeBits : Bits ieee where
  single := id
  double := id
  singleOfBits_single _ := rfl
  doubleOfBits_double _ := rfl

/-- An engine that takes ASCII text. -/
def ascii : Engine where
  size := 2048
  size_pos := by decide
  invalid text := if text.all (· < 128) then none else some "invalid text"

/-- A number is stored as its double. The callbacks count themselves. -/
def doubled (inner : Layers ieee ℕ .int64 (BitVec 64)) : Layers ieee ℕ .int64 ℕ :=
  .layer inner
    (fun n calls => (if n < 2 ^ 62 then .ok (BitVec.ofNat 64 (2 * n)) else .error "too large",
      calls + 1))
    fun v calls => (.ok (v.toNat / 2), calls + 1)

/-- A number is stored as the next one. -/
def next : Layers ieee ℕ .int64 (BitVec 64) :=
  .layer .scalar (fun v calls => (.ok (v + 1), calls + 1))
    fun (v : BitVec 64) calls => (.ok (v - 1), calls + 1)

theorem undoes_doubled_next : (doubled next).Undoes := by
  refine ⟨⟨trivial, fun a b σ h τ => ?_⟩, fun n b σ h τ => ?_⟩
  · obtain rfl := Except.ok.inj h
    exact congrArg Except.ok (BitVec.add_sub_cancel a 1)
  · dsimp only at h
    split at h
    case isTrue hn =>
      obtain rfl := Except.ok.inj h
      refine congrArg Except.ok ?_
      rw [BitVec.toNat_ofNat]
      omega
    case isFalse => cases h

/-- Five is stored as eleven, the outer layer first, and read again from every row that holds it. -/
theorem scalar_crossing_doubled :
    encodePlan (doubled next).plan 5 0 = (.ok (11#64 : Carrier ieee .int64), 2) ∧
      (∀ b rows row, Holds b row (⟨.int64, 11#64⟩ : Datum ieee) → row < rows →
        (decodePlan (doubled next).plan (read b row .int64) 0).1 = .ok 5 ∧
          (decodePlan (doubled next).plan (base b rows row .int64) 0).1 = .ok 5) ∧
      Crosses ieeeBits ascii .string [104, 105] ∧
      -- the least positive value of a single
      Crosses ieeeBits ascii .float32 1#32 := by
  have h := scalar_crossing ieeeBits ascii
  obtain ⟨-, -, -, -, hround⟩ := h.2 ℕ .int64 ℕ (doubled next)
  refine ⟨rfl, fun b rows row hholds hrow => ?_, h.1 .string _ rfl, h.1 .float32 _ trivial⟩
  exact (hround undoes_doubled_next 5 11#64 0 rfl b rows row hholds hrow 0).2

end DuckdbMl.Crossing
