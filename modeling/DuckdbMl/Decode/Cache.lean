import DuckdbMl.Decode.Mask
import DuckdbMl.Transition.System

/-!
# The vector cache

The owner of a prepared statement keeps, for each column of its result, pointers to the elements
and to the mask of the vector in the current chunk. The array outlives each chunk, so that the
pointers dangle between chunks; the readers refuse when there is no chunk and a row is not below
the number of cached rows. Following a dangling pointer, or reading past a vector or at another
width, is a fault here.

## Main definitions

* `Owner`, `State`: the owner behind a prepared block, and the live chunks of the engine
* `cacheVectors`, `fetch`, `clearResult`: the stubs that change the owner
* `cached`, `read`, `readOr`, `viewValid`, `blit`, `blitValidity`: the reads and the copies
* `serving`: the chunk that the cache answers from

## Main results

* `Coherent.step`: every stub keeps the pointers, the types and the widths of the cache right
* `coherent_reads`, `coherent_copies`: what the reads and the copies do in a coherent state
* `cache_coherent`: no run of the stubs leads to a fault, a stale read or an unchecked one
-/

namespace DuckdbMl.Decode.Cache

open View (Mask covered wordsFor)

/-! ### The owner -/

/-- What C leaves undefined. -/
inductive Fault
  | null
  | dangling (chunk : ℕ)
  | outside
  | scan (fault : View.Fault)
  deriving DecidableEq, Repr

/-- The address of the elements or of the mask of a column's vector in a chunk. -/
structure Pointer where
  chunk : ℕ
  column : ℕ
  deriving DecidableEq, Repr

/-- A column of the cache; a null pointer is `none`. -/
structure Entry where
  data : Option Pointer
  validity : Option Pointer
  type : ℕ
  width : ℕ
  deriving DecidableEq, Repr

inductive Status
  | ok | error | cancelled
  deriving DecidableEq, Repr

/-- The owner of a prepared statement. A result is known by the types of its columns, a chunk by
its handle. -/
structure Owner where
  prepared : Bool
  result : Option (List ℕ)
  chunk : Option ℕ
  vectors : Option (List Entry)
  vectorCount : ℕ
  chunkRows : ℕ
  status : Status
  deriving DecidableEq, Repr

/-- The owner, absent after the close has finished, and the chunks that the engine has not
destroyed; handles from `next` on are unused. -/
structure State where
  owner : Option Owner
  chunks : ℕ → Option Chunk
  next : ℕ

def prepare : Owner := ⟨true, none, none, none, 0, 0, .ok⟩

/-! ### Transitions -/

section Transitions

variable (s : State) (p : Owner)

/-- The live chunks without the owner's. -/
def destroyChunk : ℕ → Option Chunk := fun i => if p.chunk = some i then none else s.chunks i

def Owner.withoutChunk : Owner := { p with chunkRows := 0, chunk := none }

def Owner.freeVectors : Owner :=
  if p.vectors.isSome then { p with vectors := none, vectorCount := 0 } else p

def Owner.cleared : Owner := { p.withoutChunk.freeVectors with result := none }

def clearResult : State := ⟨some p.cleared, destroyChunk s p, s.next⟩

def clearPrepared : State := ⟨some { p.cleared with prepared := false }, destroyChunk s p, s.next⟩

/-- What an execution answers: it was not admitted, or the engine gave a result of columns of
these types, which may be a failed one. -/
inductive Executed
  | cancelled
  | result (types : List ℕ) (ok : Bool)

def execute : Executed → State
  | .cancelled => { s with owner := some { p with status := .cancelled } }
  | .result types ok =>
    { s with owner := some { p with result := some types, status := if ok then .ok else .error } }

/-- What a fetch answers: it was not admitted, or the engine gave a chunk, where `memory` says
whether the cache can be allocated, or none, which is the end or a failure. -/
inductive Fetched
  | cancelled
  | chunk (k : Chunk) (memory : Bool)
  | exhausted
  | failed

/-- The entries of a new cache: the types and widths of the result's columns. -/
def entries (types : List ℕ) (n : ℕ) : List Entry :=
  (List.range n).map fun c =>
    let t := (types[c]?).getD invalid
    ⟨none, none, t, typeWidth t⟩

/-- The pointers into the chunk `id`. -/
def refresh (id : ℕ) (k : Chunk) (count : ℕ) (es : List Entry) : List Entry :=
  es.mapIdx fun c x =>
    if c < k.columnCount ∧ c < count then
      { x with
        data := some ⟨id, c⟩
        validity := (k.vectors[c]?).bind fun v => v.validity.map fun _ => ⟨id, c⟩ }
    else x

/-- Fills the cache for the chunk `k` with the handle `id`. -/
def cacheVectors (id : ℕ) (k : Chunk) (memory : Bool) : Owner :=
  let n := k.columnCount
  if p.vectors.isNone ∧ n ≠ 0 ∧ ¬ memory then { p with status := .error }
  else
    let p := if p.vectors.isNone ∧ n ≠ 0 then
        { p with vectors := some (entries (p.result.getD []) n), vectorCount := n }
      else p
    let p := { p with vectors := p.vectors.map (refresh id k p.vectorCount) }
    if p.vectors.isSome then { p with chunkRows := k.rows } else p

def fetch (answer : Fetched) : State :=
  let chunks := destroyChunk s p
  let p := p.withoutChunk
  match answer with
  | .cancelled => ⟨some { p with status := .cancelled }, chunks, s.next⟩
  | .chunk k memory =>
    ⟨some (cacheVectors { p with status := .ok, chunk := some s.next } s.next k memory),
      fun i => if i = s.next then some k else chunks i, s.next + 1⟩
  | .exhausted => ⟨some { p with status := .ok }, chunks, s.next⟩
  | .failed => ⟨some { p with status := .error }, chunks, s.next⟩

end Transitions

inductive Action
  | execute (answer : Executed)
  | fetch (answer : Fetched)
  | closeResult
  | finishResultClose
  | closePrepared
  | finishPreparedClose

/-- A result is closed before the next execution; the engine gives chunks of a result only, and
their columns have the result's types. -/
def step (s : State) (a : Action) : Option State :=
  match s.owner, a with
  | none, _ => none
  | some p, .execute answer =>
    if p.prepared ∧ p.result = none then some (execute s p answer) else none
  | some p, .fetch (.chunk k memory) =>
    if p.result = some (k.vectors.map Vector.type) then some (fetch s p (.chunk k memory)) else none
  | some p, .fetch answer => some (fetch s p answer)
  | some p, .closeResult | some p, .finishResultClose => some (clearResult s p)
  | some p, .closePrepared => some (clearPrepared s p)
  | some p, .finishPreparedClose => some { clearPrepared s p with owner := none }

/-- The runs of the stubs from a prepared statement without a result on. -/
def system : Transition.System State Action where
  start s := s.owner = some prepare ∧ ∀ i, s.next ≤ i → s.chunks i = none
  step := step

/-! ### Reads -/

section Reads

variable (s : State)

/-- The chunk behind a pointer. -/
def follow (p : Option Pointer) : Except Fault (Pointer × Vector × Chunk) :=
  match p with
  | none => .error .null
  | some q =>
    match s.chunks q.chunk with
    | none => .error (.dangling q.chunk)
    | some k =>
      match k.vectors[q.column]? with
      | none => .error .outside
      | some v => .ok (q, v, k)

/-- The element of a row, of `width` bytes. -/
def element (p : Option Pointer) (width row : ℕ) : Except Fault (BitVec 64) := do
  let (_, v, k) ← follow s p
  if row < k.rows ∧ typeWidth v.type = width then
    return ((v.element row).setWidth (8 * width)).setWidth 64
  else .error .outside

/-- The mask behind a pointer, of which the words of the chunk's rows may be read. -/
def maskAt (p : Option Pointer) : Except Fault (Option Mask) :=
  match p with
  | none => .ok none
  | some q => do
    let (_, v, k) ← follow s (some q)
    match v.validity with
    | none => .error .outside
    | some bits => return some ⟨bits, wordsFor k.rows⟩

def validRow (x : Entry) (row : ℕ) : Except Fault Bool := do
  let mask ← maskAt s x.validity
  (View.validRow mask row).mapError .scan

/-- The number of cached rows, and the entry of a column. -/
def cached (c : ℤ) : Except Fault (Option (ℕ × Entry)) :=
  match s.owner with
  | none => .ok none
  | some p =>
    if p.chunk.isSome ∧ 0 ≤ c ∧ c.toNat < p.vectorCount then
      match p.vectors.bind (·[c.toNat]?) with
      | none => .error .outside
      | some x => .ok (some (p.chunkRows, x))
    else .ok none

/-- The entry of a column when the row is cached and its elements have the width. -/
def readable (c i : ℤ) (width : ℕ) : Except Fault (Option Entry) := do
  match ← cached s c with
  | none => return none
  | some (rows, x) => return if 0 ≤ i ∧ i.toNat < rows ∧ x.width = width then some x else none

/-- An element, 0 for a refused read. -/
def read (c i : ℤ) (width : ℕ) : Except Fault (BitVec 64) := do
  match ← readable s c i width with
  | none => return 0
  | some x => element s x.data width i.toNat

/-- An element, `d` for a refused read or a NULL row. -/
def readOr (c i : ℤ) (width : ℕ) (d : BitVec 64) : Except Fault (BitVec 64) := do
  match ← readable s c i width with
  | none => return d
  | some x => if ← validRow s x i.toNat then element s x.data width i.toNat else return d

def viewBool (c i : ℤ) : Except Fault Bool := do return (← read s c i 1) ≠ 0

def viewValid (c i : ℤ) : Except Fault Bool := do
  match ← cached s c with
  | none => return false
  | some (rows, x) => if 0 ≤ i ∧ i.toNat < rows then validRow s x i.toNat else return false

def viewNullCount (c length : ℤ) : Except Fault ℤ := do
  match ← cached s c with
  | none => return 0
  | some (rows, x) =>
    let mask ← maskAt s x.validity
    (View.nullCount (some mask) rows length).mapError .scan

def viewFirstNull (c length : ℤ) : Except Fault ℤ := do
  match ← cached s c with
  | none => return -1
  | some (rows, x) =>
    let mask ← maskAt s x.validity
    (View.firstNull (some mask) rows length).mapError .scan

/-! ### Copies -/

/-- A one-dimensional Bigarray: the bytes of an element, whether they are unsigned bytes, and the
elements. -/
structure Bigarray where
  width : ℕ
  uint8 : Bool
  cells : List (BitVec 64)
  deriving DecidableEq, Repr

/-- The element width, 0 for an empty array. -/
def Bigarray.elementSize (b : Bigarray) : ℕ := if b.cells.isEmpty then 0 else b.width

/-- A loop over the rows below `n`. -/
def forRows {α : Type} (n : ℕ) (body : α → ℕ → Except Fault α) (a : α) : Except Fault α :=
  (List.range n).foldlM body a

/-- Copies the elements of `length` rows, and writes 0 at NULL rows. -/
def blit (c length : ℤ) (b : Bigarray) (pos : ℤ) : Except Fault Bigarray := do
  match ← cached s c with
  | none => return b
  | some (rows, x) =>
    if length > rows ∨ x.width = 0 ∨ x.width ≠ b.elementSize ∨ length < 0 ∨ pos < 0 ∨
        pos > b.cells.length - length then return b
    else
      let copied ← forRows length.toNat
        (fun cells i => do return cells.set (pos.toNat + i) (← element s x.data x.width i)) b.cells
      let cleared ← forRows length.toNat
        (fun cells i => do
          if ← validRow s x i then return cells else return cells.set (pos.toNat + i) 0) copied
      return { b with cells := cleared }

/-- Writes a byte for each row: 1 for a valid one, 0 for NULL. -/
def blitValidity (c length : ℤ) (b : Bigarray) (pos : ℤ) : Except Fault Bigarray := do
  match ← cached s c with
  | none => return b
  | some (rows, x) =>
    if length > rows ∨ ¬ b.uint8 ∨ length < 0 ∨ pos < 0 ∨ pos > b.cells.length - length then
      return b
    else
      let cells ← forRows length.toNat
        (fun cells i => do
          return cells.set (pos.toNat + i) (if ← validRow s x i then 1 else 0)) b.cells
      return { b with cells := cells }

end Reads

/-! ### Coherence -/

/-- The entry of a column whose vector in the chunk `id` is `v`. -/
def entryOf (id c : ℕ) (v : Vector) : Entry :=
  ⟨some ⟨id, c⟩, v.validity.map fun _ => ⟨id, c⟩, v.type, typeWidth v.type⟩

/-- **The owner is coherent** with the live chunks: it holds a live chunk of its result, or none;
its cache has the types and widths of its result, and the pointers and the size of the chunk. -/
structure Sound (chunks : ℕ → Option Chunk) (p : Owner) : Prop where
  count : p.vectorCount = p.vectors.elim 0 List.length
  recorded : ∀ es, p.vectors = some es → ∃ types, p.result = some types ∧
    es.map (fun x => (x.type, x.width)) = types.map fun t => (t, typeWidth t)
  held : ∀ id, p.chunk = some id →
    ∃ k, chunks id = some k ∧ p.result = some (k.vectors.map Vector.type)
  rows : p.chunk = none ∨ p.vectors = none → p.chunkRows = 0
  pointers : ∀ id k es, p.chunk = some id → chunks id = some k → p.vectors = some es →
    es = k.vectors.mapIdx (entryOf id) ∧ p.chunkRows = k.rows

structure Coherent (s : State) : Prop where
  unused : ∀ i, s.next ≤ i → s.chunks i = none
  sound : ∀ p, s.owner = some p → Sound s.chunks p

section Coherent

variable {s t : State} {p : Owner}

theorem destroyChunk_unused (hs : Coherent s) :
    ∀ i, s.next ≤ i → destroyChunk s p i = none := by
  intro i hi
  rw [destroyChunk]
  split
  · rfl
  · exact hs.unused i hi

/-- Without a chunk only the recorded types have to be right. -/
theorem Sound.without {chunks chunks' : ℕ → Option Chunk} (h : Sound chunks p) :
    Sound chunks' p.withoutChunk where
  count := h.count
  recorded := h.recorded
  held := fun _ he => by cases he
  rows _ := rfl
  pointers := fun _ _ _ he => by cases he

theorem Sound.withStatus {chunks : ℕ → Option Chunk} {status : Status} (h : Sound chunks p) :
    Sound chunks { p with status := status } :=
  ⟨h.count, h.recorded, h.held, h.rows, h.pointers⟩

/-- **A close** leaves neither a chunk nor a cache. -/
theorem cleared_eq {chunks : ℕ → Option Chunk} (h : Sound chunks p) :
    p.cleared = ⟨p.prepared, none, none, none, 0, 0, p.status⟩ := by
  obtain ⟨prepared, result, chunk, vectors, count, rows, status⟩ := p
  cases vectors with
  | none =>
    obtain rfl : count = 0 := h.count
    rfl
  | some es => rfl

theorem sound_closed {chunks : ℕ → Option Chunk} {prepared : Bool} {status : Status} :
    Sound chunks ⟨prepared, none, none, none, 0, 0, status⟩ where
  count := rfl
  recorded := fun _ he => by cases he
  held := fun _ he => by cases he
  rows _ := rfl
  pointers := fun _ _ _ he => by cases he

theorem coherent_clearResult (hs : Coherent s) (hp : Sound s.chunks p) :
    Coherent (clearResult s p) := by
  refine ⟨destroyChunk_unused hs, fun q hq => Option.some.inj hq ▸ ?_⟩
  rw [cleared_eq hp]
  exact sound_closed

theorem coherent_clearPrepared (hs : Coherent s) (hp : Sound s.chunks p) :
    Coherent (clearPrepared s p) := by
  refine ⟨destroyChunk_unused hs, fun q hq => Option.some.inj hq ▸ ?_⟩
  rw [cleared_eq hp]
  exact sound_closed

theorem entries_recorded (types : List ℕ) :
    (entries types types.length).map (fun x => (x.type, x.width)) =
      types.map fun t => (t, typeWidth t) := by
  refine List.ext_getElem (by simp [entries]) fun i hi hi' => ?_
  have hlt : i < types.length := by simpa using hi'
  simp [entries, List.getElem?_eq_getElem hlt]

/-- **The pointers of the new chunk** complete the entries of its result. -/
theorem refresh_eq {id : ℕ} {k : Chunk} {es : List Entry}
    (h : es.map (fun x => (x.type, x.width)) =
      (k.vectors.map Vector.type).map fun t => (t, typeWidth t)) :
    refresh id k es.length es = k.vectors.mapIdx (entryOf id) := by
  have hlen : es.length = k.vectors.length := by simpa using congrArg List.length h
  refine List.ext_getElem (by simp [refresh, hlen]) fun i hi hi' => ?_
  have hk : i < k.vectors.length := by simpa using hi'
  have hes : i < es.length := hlen ▸ hk
  have htypes : es[i].type = k.vectors[i].type ∧
      es[i].width = typeWidth k.vectors[i].type := by
    have := List.getElem_of_eq h (i := i) (by simpa using hes)
    rw [List.getElem_map, List.getElem_map, List.getElem_map] at this
    exact Prod.mk.inj this
  have hcond : i < k.columnCount ∧ i < es.length := ⟨hk, hes⟩
  simp only [refresh, List.getElem_mapIdx, if_pos hcond, List.getElem?_eq_getElem hk,
    Option.bind_some, entryOf, Entry.mk.injEq, true_and]
  exact htypes

theorem cacheVectors_kept {id : ℕ} {k : Chunk} {memory : Bool} {es : List Entry}
    (h : p.vectors = some es) : cacheVectors p id k memory =
      { p with vectors := some (refresh id k p.vectorCount es), chunkRows := k.rows } := by
  simp [cacheVectors, h]

theorem cacheVectors_new {id : ℕ} {k : Chunk} (h : p.vectors = none) (hn : k.columnCount ≠ 0) :
    cacheVectors p id k true =
      { p with
        vectors := some (refresh id k k.columnCount (entries (p.result.getD []) k.columnCount))
        vectorCount := k.columnCount
        chunkRows := k.rows } := by
  simp [cacheVectors, h, hn]

/-- Without memory, or without columns, there is no cache. -/
theorem cacheVectors_none {id : ℕ} {k : Chunk} {memory : Bool} (h : p.vectors = none)
    (hn : k.columnCount = 0 ∨ memory = false) :
    ∃ status, cacheVectors p id k memory = { p with status := status } := by
  by_cases hz : k.columnCount = 0
  · refine ⟨p.status, ?_⟩
    obtain ⟨_, _, _, _, _, _, _⟩ := p
    cases h
    simp [cacheVectors, hz]
  · obtain rfl := hn.resolve_left hz
    exact ⟨.error, by simp [cacheVectors, h, hz]⟩

/-- The owner after a chunk has been cached: the cache has the entries of the chunk. -/
theorem sound_filled {chunks : ℕ → Option Chunk} {prepared : Bool} {status : Status} {id : ℕ}
    {k : Chunk} (hk : chunks id = some k) :
    Sound chunks ⟨prepared, some (k.vectors.map Vector.type), some id,
      some (k.vectors.mapIdx (entryOf id)), k.columnCount, k.rows, status⟩ where
  count := by simp [Chunk.columnCount]
  recorded := by
    rintro es he
    cases he
    refine ⟨_, rfl, List.ext_getElem (by simp) fun i hi hi' => ?_⟩
    simp [entryOf]
  held := by
    rintro i hi
    cases hi
    exact ⟨k, hk, rfl⟩
  rows h := by rcases h with h | h <;> cases h
  pointers := by
    rintro i k' es hi hk' he
    cases hi
    cases he
    obtain rfl : k = k' := Option.some.inj (hk.symm.trans hk')
    exact ⟨rfl, rfl⟩

/-- **A fetched chunk is cached**: whatever was recorded before, and also when the cache cannot be
allocated, the owner is coherent with the new chunk. -/
theorem Sound.cacheVectors {chunks chunks' : ℕ → Option Chunk} {id : ℕ} {k : Chunk}
    {memory : Bool} (h : Sound chunks p) (hr : p.result = some (k.vectors.map Vector.type))
    (hrows : p.chunkRows = 0) (hk : chunks' id = some k) :
    Sound chunks' (Cache.cacheVectors { p with chunk := some id } id k memory) := by
  obtain ⟨prepared, result, chunk, vectors, count, rows, status⟩ := p
  obtain rfl : result = _ := hr
  obtain rfl : rows = 0 := hrows
  cases vectors with
  -- the array of the result is there: its entries are filled again
  | some es =>
    obtain rfl : count = es.length := h.count
    obtain ⟨types, ht, hes⟩ := h.recorded es rfl
    obtain rfl : k.vectors.map Vector.type = types := Option.some.inj ht
    have hlen : es.length = k.columnCount := by
      simpa [Chunk.columnCount] using congrArg List.length hes
    rw [cacheVectors_kept rfl]
    dsimp only
    rw [refresh_eq hes, hlen]
    exact sound_filled hk
  -- it is allocated with the first chunk
  | none =>
    obtain rfl : count = 0 := h.count
    by_cases hn : k.columnCount = 0 ∨ memory = false
    -- without columns, or without memory, nothing is cached
    · have hempty : ∃ status', Cache.cacheVectors ⟨prepared, some (k.vectors.map Vector.type),
          some id, none, 0, 0, status⟩ id k memory =
            ⟨prepared, some (k.vectors.map Vector.type), some id, none, 0, 0, status'⟩ :=
        cacheVectors_none rfl hn
      obtain ⟨status', he⟩ := hempty
      rw [he]
      refine ⟨rfl, fun _ he => (by cases he), fun i hi => ?_, fun _ => rfl,
        fun _ _ _ _ _ he => (by cases he)⟩
      cases hi
      exact ⟨k, hk, rfl⟩
    · obtain ⟨hcols, hm⟩ := not_or.mp hn
      rw [Bool.not_eq_false] at hm
      subst hm
      rw [cacheVectors_new rfl hcols]
      dsimp only
      have hlen : k.columnCount = (k.vectors.map Vector.type).length := by
        rw [List.length_map]
        rfl
      have hrec := entries_recorded (k.vectors.map Vector.type)
      have hrefresh := @refresh_eq id k _ hrec
      rw [show (entries (k.vectors.map Vector.type) (k.vectors.map Vector.type).length).length =
        k.columnCount by simp [entries, Chunk.columnCount], ← hlen] at hrefresh
      rw [Option.getD_some, hrefresh]
      exact sound_filled hk

theorem coherent_fetch {answer : Fetched} (hs : Coherent s) (hp : s.owner = some p)
    (hr : ∀ k memory, answer = .chunk k memory → p.result = some (k.vectors.map Vector.type)) :
    Coherent (fetch s p answer) := by
  have hunused : ∀ i, s.next ≤ i → destroyChunk s p i = none := destroyChunk_unused hs
  have hsound := hs.sound p hp
  cases answer with
  | cancelled | exhausted | failed =>
    exact ⟨hunused, fun q hq => Option.some.inj hq ▸ hsound.without.withStatus⟩
  | chunk k memory =>
    refine ⟨fun i hi => ?_, fun q hq => ?_⟩
    · have hi : s.next + 1 ≤ i := hi
      change (if i = s.next then some k else destroyChunk s p i) = none
      rw [if_neg (by omega)]
      exact hunused i (by omega)
    · have hwithout : Sound s.chunks { p.withoutChunk with status := .ok } :=
        hsound.without.withStatus
      exact Option.some.inj hq ▸ hwithout.cacheVectors (hr k memory rfl) rfl (if_pos rfl)

theorem coherent_execute {answer : Executed} (hs : Coherent s) (hp : s.owner = some p)
    (hr : p.result = none) : Coherent (execute s p answer) := by
  have hsound := hs.sound p hp
  -- without a result there is neither a chunk nor a cache
  have hchunk : p.chunk = none := by
    cases hc : p.chunk with
    | none => rfl
    | some id =>
      obtain ⟨k, -, hk⟩ := hsound.held id hc
      rw [hr] at hk
      cases hk
  have hvectors : p.vectors = none := by
    cases hv : p.vectors with
    | none => rfl
    | some es =>
      obtain ⟨types, ht, -⟩ := hsound.recorded es hv
      rw [hr] at ht
      cases ht
  cases answer with
  | cancelled => exact ⟨hs.unused, fun q hq => Option.some.inj hq ▸ hsound.withStatus⟩
  | result types ok =>
    refine ⟨hs.unused, fun q hq => Option.some.inj hq ▸ ?_⟩
    refine ⟨hsound.count, fun es he => ?_, fun id hid => ?_, hsound.rows, fun id k es hid => ?_⟩
    · rw [hvectors] at he
      cases he
    · rw [hchunk] at hid
      cases hid
    · rw [hchunk] at hid
      cases hid

/-- **Every stub keeps the cache coherent.** -/
theorem Coherent.step {a : Action} (hs : Coherent s) (h : Cache.step s a = some t) :
    Coherent t := by
  cases hp : s.owner with
  | none => simp [Cache.step, hp] at h
  | some p =>
    have hsound := hs.sound p hp
    cases a with
    | execute answer =>
      simp only [Cache.step, hp, Option.ite_none_right_eq_some, Option.some.injEq] at h
      exact h.2 ▸ coherent_execute hs hp h.1.2
    | fetch answer =>
      cases answer with
      -- a chunk is cached; any other answer leaves the cache empty
      | chunk k memory =>
        simp only [Cache.step, hp, Option.ite_none_right_eq_some, Option.some.injEq] at h
        refine h.2 ▸ coherent_fetch hs hp fun k' memory' he => ?_
        cases he
        exact h.1
      | cancelled | exhausted | failed =>
        simp only [Cache.step, hp, Option.some.injEq] at h
        exact h ▸ coherent_fetch hs hp fun _ _ he => by cases he
    | closeResult | finishResultClose =>
      simp only [Cache.step, hp, Option.some.injEq] at h
      exact h ▸ coherent_clearResult hs hsound
    | closePrepared =>
      simp only [Cache.step, hp, Option.some.injEq] at h
      exact h ▸ coherent_clearPrepared hs hsound
    | finishPreparedClose =>
      simp only [Cache.step, hp, Option.some.injEq] at h
      subst h
      exact ⟨(coherent_clearPrepared hs hsound).unused, fun q hq => by cases hq⟩

theorem coherent_of_reachable (h : system.Reachable .free s) : Coherent s := by
  refine h.induction (fun s hs => ⟨hs.2, fun p hp => ?_⟩) fun s a t hs _ ht => hs.step ht
  exact Option.some.inj (hs.1.symm.trans hp) ▸ sound_closed

end Coherent

/-! ### Reads and copies of a coherent cache -/

/-- The chunk that the cache answers from: the one that is held, once it has been cached. -/
def serving (s : State) : Option Chunk :=
  s.owner.bind fun p => if p.vectors.isSome then p.chunk.bind s.chunks else none

/-- The vector of a column of that chunk, for any number of a column. -/
def vectorAt (s : State) (c : ℤ) : Option (Chunk × Vector) :=
  (serving s).bind fun k => if 0 ≤ c then (k.vectors[c.toNat]?).map (k, ·) else none

/-- The vector, where the row is in the chunk and its elements have the width. -/
def within (s : State) (c i : ℤ) (width : ℕ) : Option Vector :=
  (vectorAt s c).bind fun x =>
    if 0 ≤ i ∧ i.toNat < x.1.rows ∧ typeWidth x.2.type = width then some x.2 else none

/-- The bits of an element. -/
def Vector.value (v : Vector) (row : ℕ) : BitVec 64 :=
  ((v.element row).setWidth (8 * typeWidth v.type)).setWidth 64

section Reads

variable {s : State}

/-- **What the readers find in the cache** is a column of the chunk that it answers from. -/
theorem Coherent.cached (hs : Coherent s) (c : ℤ) :
    (vectorAt s c = none ∧ Cache.cached s c = .ok none) ∨
      ∃ p id k v, s.owner = some p ∧ p.chunk = some id ∧ s.chunks id = some k ∧
        k.vectors[c.toNat]? = some v ∧ p.vectorCount = k.columnCount ∧
        vectorAt s c = some (k, v) ∧
        Cache.cached s c = .ok (some (k.rows, entryOf id c.toNat v)) := by
  cases hp : s.owner with
  | none => exact .inl ⟨by simp [vectorAt, serving, hp], by simp [Cache.cached, hp]⟩
  | some p =>
    have hsound := hs.sound p hp
    cases hv : p.vectors with
    | none =>
      have hcount : p.vectorCount = 0 := by simpa [hv] using hsound.count
      exact .inl ⟨by simp [vectorAt, serving, hp, hv], by simp [Cache.cached, hp, hcount]⟩
    | some es =>
      cases hid : p.chunk with
      | none => exact .inl ⟨by simp [vectorAt, serving, hp, hid], by simp [Cache.cached, hp, hid]⟩
      | some id =>
        obtain ⟨k, hk, -⟩ := hsound.held id hid
        obtain ⟨hes, hrows⟩ := hsound.pointers id k es hid hk hv
        have hcount : p.vectorCount = k.columnCount := by
          simpa [hv, hes, Chunk.columnCount] using hsound.count
        have hserving : serving s = some k := by simp [serving, hp, hv, hid, hk]
        by_cases hc : 0 ≤ c ∧ c.toNat < k.vectors.length
        · have hget : k.vectors[c.toNat]? = some k.vectors[c.toNat] :=
            List.getElem?_eq_getElem hc.2
          have hcond : p.chunk.isSome ∧ 0 ≤ c ∧ c.toNat < p.vectorCount :=
            ⟨by simp [hid], hc.1, hcount ▸ hc.2⟩
          refine .inr ⟨p, id, k, _, rfl, hid, hk, hget, hcount, ?_, ?_⟩
          · rw [vectorAt, hserving, Option.bind_some, if_pos hc.1, hget]
            rfl
          · have hentry : p.vectors.bind (·[c.toNat]?) =
                some (entryOf id c.toNat k.vectors[c.toNat]) := by
              simp [hv, hes, hc.2]
            rw [Cache.cached, hp]
            dsimp only
            rw [if_pos hcond, hentry, hrows]
        · refine .inl ⟨?_, ?_⟩
          · rw [vectorAt, hserving, Option.bind_some]
            split
            case isTrue h0 =>
              rw [List.getElem?_eq_none (by simpa [h0] using hc)]
              rfl
            case isFalse => rfl
          · rw [Cache.cached, hp]
            dsimp only
            rw [if_neg]
            rintro ⟨-, h0, hlt⟩
            rw [hcount] at hlt
            exact hc ⟨h0, hlt⟩

variable {id c row : ℕ} {k : Chunk} {v : Vector}

theorem element_entryOf (hk : s.chunks id = some k) (hv : k.vectors[c]? = some v)
    (hrow : row < k.rows) :
    element s (entryOf id c v).data (entryOf id c v).width row = .ok (Vector.value v row) := by
  simp [element, entryOf, follow, hk, hv, hrow, Vector.value, bind, Except.bind, pure, Except.pure]

theorem maskAt_entryOf (hk : s.chunks id = some k) (hv : k.vectors[c]? = some v) :
    maskAt s (entryOf id c v).validity =
      .ok (v.validity.map fun bits => ⟨bits, wordsFor k.rows⟩) := by
  cases hbits : v.validity <;>
    simp [maskAt, entryOf, hbits, follow, hk, hv, bind, Except.bind, pure, Except.pure]

theorem validRow_entryOf (hk : s.chunks id = some k) (hv : k.vectors[c]? = some v)
    (hrow : row < k.rows) :
    Cache.validRow s (entryOf id c v) row = .ok (v.validRow row) := by
  rw [Cache.validRow, maskAt_entryOf hk hv]
  cases hbits : v.validity with
  | none => simp [View.validRow, Vector.validRow, hbits, bind, Except.bind, Except.mapError]
  | some bits =>
    have hlt : row / 64 < wordsFor k.rows := by
      rw [wordsFor]
      omega
    simp [View.validRow, Vector.validRow, hbits, Mask.word, hlt, maskBit, bind, Except.bind,
      Except.mapError, pure, Except.pure]

/-- The scans of the mask of a vector in a chunk. -/
theorem scans_of_vector (k : Chunk) (v : Vector) (length : ℤ) :
    View.nullCount (some (v.validity.map fun bits => ⟨bits, wordsFor k.rows⟩)) k.rows length =
        .ok ((List.range (covered k.rows length)).countP fun i => !v.validRow i : ℕ) ∧
      View.firstNull (some (v.validity.map fun bits => ⟨bits, wordsFor k.rows⟩)) k.rows length =
        .ok ((((List.range (covered k.rows length)).find? fun i => !v.validRow i).map
          Int.ofNat).getD (-1)) := by
  have hnull : View.isNull (some (v.validity.map fun bits => ⟨bits, wordsFor k.rows⟩)) =
      fun i => !v.validRow i := by
    funext i
    cases hbits : v.validity <;> simp [View.isNull, Vector.validRow, hbits]
  obtain ⟨hcount, hfirst, -⟩ := View.scans_exact
    (some (v.validity.map fun bits => ⟨bits, wordsFor k.rows⟩)) k.rows length
    (by
      intro mask hmask
      obtain ⟨bits, -, rfl⟩ := Option.map_eq_some_iff.mp (Option.some.inj hmask)
      change (covered k.rows length + 63) / 64 ≤ (k.rows + 63) / 64
      rw [covered]
      omega)
  rw [hnull] at hcount hfirst
  exact ⟨hcount, hfirst⟩

/-- **Every read** has the element or the bit of the row in the chunk, where the column, the row
and the width are right, and its refusal value elsewhere. -/
structure Reads (s : State) : Prop where
  read : ∀ c i width, read s c i width =
    .ok ((within s c i width).elim 0 fun v => Vector.value v i.toNat)
  readOr : ∀ c i width d, readOr s c i width d =
    .ok ((within s c i width).elim d fun v =>
      if v.validRow i.toNat then Vector.value v i.toNat else d)
  valid : ∀ c i, viewValid s c i =
    .ok ((vectorAt s c).elim false fun x =>
      decide (0 ≤ i ∧ i.toNat < x.1.rows) && x.2.validRow i.toNat)
  nullCount : ∀ c length, viewNullCount s c length =
    .ok ((vectorAt s c).elim 0 fun x =>
      (((List.range (covered x.1.rows length)).countP fun i => !x.2.validRow i : ℕ) : ℤ))
  firstNull : ∀ c length, viewFirstNull s c length =
    .ok ((vectorAt s c).elim (-1) fun x =>
      (((List.range (covered x.1.rows length)).find? fun i => !x.2.validRow i).map
        Int.ofNat).getD (-1))

/-- A row is readable exactly where a column of the served chunk has it, at its width. -/
theorem Coherent.readable (hs : Coherent s) (c i : ℤ) (width : ℕ) :
    (within s c i width = none ∧ Cache.readable s c i width = .ok none) ∨
      ∃ id k v, s.chunks id = some k ∧ k.vectors[c.toNat]? = some v ∧ i.toNat < k.rows ∧
        typeWidth v.type = width ∧ within s c i width = some v ∧
        Cache.readable s c i width = .ok (some (entryOf id c.toNat v)) := by
  rcases hs.cached c with ⟨hnone, hcached⟩ | ⟨p, id, k, v, -, -, hk, hv, -, hat, hcached⟩
  · refine .inl ⟨by rw [within, hnone]; rfl, ?_⟩
    rw [Cache.readable, hcached]
    rfl
  · by_cases hw : 0 ≤ i ∧ i.toNat < k.rows ∧ typeWidth v.type = width
    · refine .inr ⟨id, k, v, hk, hv, hw.2.1, hw.2.2, ?_, ?_⟩
      · rw [within, hat, Option.bind_some, if_pos hw]
      · rw [Cache.readable, hcached]
        exact congrArg Except.ok (if_pos hw)
    · refine .inl ⟨?_, ?_⟩
      · rw [within, hat, Option.bind_some, if_neg hw]
      · rw [Cache.readable, hcached]
        exact congrArg Except.ok (if_neg hw)

theorem coherent_reads (hs : Coherent s) : Reads s where
  read c i width := by
    rcases hs.readable c i width with ⟨hw, hr⟩ | ⟨id, k, v, hk, hv, hrow, rfl, hw, hr⟩
    · rw [Cache.read, hr, hw]
      rfl
    · rw [Cache.read, hr, hw]
      exact element_entryOf hk hv hrow
  readOr c i width d := by
    rcases hs.readable c i width with ⟨hw, hr⟩ | ⟨id, k, v, hk, hv, hrow, rfl, hw, hr⟩
    · rw [Cache.readOr, hr, hw]
      rfl
    · rw [Cache.readOr, hr, hw]
      change (Cache.validRow s (entryOf id c.toNat v) i.toNat >>= _) = _
      rw [validRow_entryOf hk hv hrow, Option.elim_some]
      change (if v.validRow i.toNat = true then _ else _) = _
      split
      · exact element_entryOf hk hv hrow
      · rfl
  valid c i := by
    rcases hs.cached c with ⟨hnone, hcached⟩ | ⟨p, id, k, v, -, -, hk, hv, -, hat, hcached⟩
    · rw [viewValid, hcached, hnone]
      rfl
    · rw [viewValid, hcached, hat, Option.elim_some]
      change (if 0 ≤ i ∧ i.toNat < k.rows then Cache.validRow s (entryOf id c.toNat v) i.toNat
        else Except.ok false) = _
      split
      case isTrue h => rw [validRow_entryOf hk hv h.2, decide_eq_true h, Bool.true_and]
      case isFalse h => rw [decide_eq_false h, Bool.false_and]
  nullCount c length := by
    rcases hs.cached c with ⟨hnone, hcached⟩ | ⟨p, id, k, v, -, -, hk, hv, -, hat, hcached⟩
    · rw [viewNullCount, hcached, hnone]
      rfl
    · obtain ⟨hcount, -⟩ := scans_of_vector k v length
      rw [viewNullCount, hcached, hat, Option.elim_some]
      change (maskAt s (entryOf id c.toNat v).validity >>= _) = _
      rw [maskAt_entryOf hk hv]
      change (View.nullCount (some _) k.rows length).mapError Fault.scan = _
      rw [hcount]
      rfl
  firstNull c length := by
    rcases hs.cached c with ⟨hnone, hcached⟩ | ⟨p, id, k, v, -, -, hk, hv, -, hat, hcached⟩
    · rw [viewFirstNull, hcached, hnone]
      rfl
    · obtain ⟨-, hfirst⟩ := scans_of_vector k v length
      rw [viewFirstNull, hcached, hat, Option.elim_some]
      change (maskAt s (entryOf id c.toNat v).validity >>= _) = _
      rw [maskAt_entryOf hk hv]
      change (View.firstNull (some _) k.rows length).mapError Fault.scan = _
      rw [hfirst]
      rfl

end Reads

/-! ### Loops over rows -/

/-- A loop that writes, for each row where `g` has a value, the cell at its offset from `pos`. -/
theorem forRows_set (g : ℕ → Option (BitVec 64)) (pos : ℕ) {n : ℕ}
    {body : List (BitVec 64) → ℕ → Except Fault (List (BitVec 64))}
    (h : ∀ cells, ∀ i < n, body cells i =
      .ok ((g i).elim cells fun v => cells.set (pos + i) v)) (cells : List (BitVec 64)) :
    forRows n body cells = .ok (cells.mapIdx fun j old =>
      if pos ≤ j ∧ j < pos + n then (g (j - pos)).getD old else old) := by
  induction n with
  | zero =>
    have hid : (cells.mapIdx fun j old =>
        if pos ≤ j ∧ j < pos + 0 then (g (j - pos)).getD old else old) = cells := by
      refine List.ext_getElem (by simp) fun j hj hj' => ?_
      rw [List.getElem_mapIdx, if_neg (by omega)]
    rw [hid]
    rfl
  | succ n ih =>
    have ih := ih fun cells i hi => h cells i (by omega)
    rw [forRows, List.range_succ, List.foldlM_append]
    rw [forRows] at ih
    rw [ih]
    change body _ n >>= pure = _
    rw [h _ n (by omega), bind_pure]
    refine congrArg Except.ok ?_
    cases hg : g n with
    | none =>
      refine List.ext_getElem (by simp) fun j hj hj' => ?_
      simp only [Option.elim_none, List.getElem_mapIdx]
      by_cases hjn : j = pos + n
      · have hsub : j - pos = n := by omega
        rw [if_neg (by omega), if_pos (by omega), hsub, hg]
        rfl
      · have hiff : (pos ≤ j ∧ j < pos + n) ↔ (pos ≤ j ∧ j < pos + (n + 1)) := by omega
        simp only [hiff]
    | some v =>
      refine List.ext_getElem (by simp) fun j hj hj' => ?_
      simp only [Option.elim_some, List.getElem_set, List.getElem_mapIdx]
      by_cases hjn : pos + n = j
      · have hsub : j - pos = n := by omega
        rw [if_pos hjn, if_pos (by omega), hsub, hg]
        rfl
      · have hiff : (pos ≤ j ∧ j < pos + n) ↔ (pos ≤ j ∧ j < pos + (n + 1)) := by omega
        simp only [if_neg hjn, hiff]

/-- The cells after a copy of `n` rows to `pos`. -/
def copied (value : ℕ → BitVec 64) (n pos : ℕ) (cells : List (BitVec 64)) : List (BitVec 64) :=
  cells.mapIdx fun j old => if pos ≤ j ∧ j < pos + n then value (j - pos) else old

/-- A copy fits: its rows are in the chunk and the destination holds them. -/
def Fits (k : Chunk) (b : Bigarray) (length pos : ℤ) : Prop :=
  0 ≤ length ∧ length ≤ k.rows ∧ 0 ≤ pos ∧ pos + length ≤ b.cells.length

instance {k : Chunk} {b : Bigarray} {length pos : ℤ} : Decidable (Fits k b length pos) := by
  unfold Fits
  infer_instance

section Copies

variable {s : State} {id c : ℕ} {k : Chunk} {v : Vector} {n : ℕ}

theorem copy_elements (hk : s.chunks id = some k) (hv : k.vectors[c]? = some v) (hn : n ≤ k.rows)
    (pos : ℕ) (cells : List (BitVec 64)) :
    forRows n (fun cells i => do
      return cells.set (pos + i) (← element s (entryOf id c v).data (entryOf id c v).width i))
        cells = .ok (copied (Vector.value v) n pos cells) :=
  forRows_set (fun i => some (Vector.value v i)) pos (fun cells i hi => by
    rw [element_entryOf hk hv (by omega)]
    rfl) cells

theorem clear_nulls (hk : s.chunks id = some k) (hv : k.vectors[c]? = some v) (hn : n ≤ k.rows)
    (pos : ℕ) (cells : List (BitVec 64)) :
    forRows n (fun cells i => do
      if ← Cache.validRow s (entryOf id c v) i then return cells
      else return cells.set (pos + i) 0) (copied (Vector.value v) n pos cells) =
        .ok (copied (fun i => if v.validRow i then Vector.value v i else 0) n pos cells) := by
  have hclear := forRows_set (fun i => if v.validRow i then none else some 0) pos (n := n)
    (fun cells i hi => (by
      rw [validRow_entryOf hk hv (by omega)]
      change (if v.validRow i = true then _ else _) = _
      split <;> rfl : (do
        if ← Cache.validRow s (entryOf id c v) i then return cells
        else return cells.set (pos + i) 0) = _)) (copied (Vector.value v) n pos cells)
  refine hclear.trans (congrArg Except.ok (List.ext_getElem (by simp [copied]) ?_))
  intro j hj hj'
  simp only [copied, List.getElem_mapIdx]
  split
  · split <;> rfl
  · rfl

theorem copy_validity (hk : s.chunks id = some k) (hv : k.vectors[c]? = some v)
    (hn : n ≤ k.rows) (pos : ℕ) (cells : List (BitVec 64)) :
    forRows n (fun cells i => do
      return cells.set (pos + i) (if ← Cache.validRow s (entryOf id c v) i then 1 else 0))
        cells = .ok (copied (fun i => if v.validRow i then 1 else 0) n pos cells) :=
  forRows_set (fun i => some (if v.validRow i then 1 else 0)) pos (fun cells i hi => by
    rw [validRow_entryOf hk hv (by omega)]
    rfl) cells

end Copies

/-- **Every copy** writes the elements or the validity of rows of the chunk, where the column, the
range, the width and the destination are right, and changes nothing elsewhere. -/
structure Copies (s : State) : Prop where
  blit : ∀ c length b pos, blit s c length b pos =
    .ok ((vectorAt s c).elim b fun x =>
      if Fits x.1 b length pos ∧ typeWidth x.2.type ≠ 0 ∧ typeWidth x.2.type = b.elementSize then
        ⟨b.width, b.uint8, copied (fun i => if x.2.validRow i then Vector.value x.2 i else 0)
          length.toNat pos.toNat b.cells⟩
      else b)
  validity : ∀ c length b pos, blitValidity s c length b pos =
    .ok ((vectorAt s c).elim b fun x =>
      if Fits x.1 b length pos ∧ b.uint8 then
        ⟨b.width, b.uint8, copied (fun i => if x.2.validRow i then 1 else 0)
          length.toNat pos.toNat b.cells⟩
      else b)

theorem coherent_copies {s : State} (hs : Coherent s) : Copies s where
  blit c length b pos := by
    rcases hs.cached c with ⟨hnone, hcached⟩ | ⟨p, id, k, v, -, -, hk, hv, -, hat, hcached⟩
    · rw [Cache.blit, hcached, hnone]
      rfl
    · rw [Cache.blit, hcached, hat, Option.elim_some]
      change (if length > k.rows ∨ typeWidth v.type = 0 ∨ typeWidth v.type ≠ b.elementSize ∨
        length < 0 ∨ pos < 0 ∨ pos > b.cells.length - length then _ else _) = _
      by_cases hfit : Fits k b length pos ∧ typeWidth v.type ≠ 0 ∧
          typeWidth v.type = b.elementSize
      · obtain ⟨⟨hlen, hrows, hpos, hdim⟩, hwidth, hsize⟩ := hfit
        have hn : length.toNat ≤ k.rows := by omega
        rw [if_neg (by omega), if_pos ⟨⟨hlen, hrows, hpos, hdim⟩, hwidth, hsize⟩,
          copy_elements hk hv hn]
        change (forRows _ _ _ >>= fun cleared => Except.ok { b with cells := cleared }) = _
        rw [clear_nulls hk hv hn]
        rfl
      · rw [if_neg hfit, if_pos]
        · rfl
        · unfold Fits at hfit
          omega
  validity c length b pos := by
    rcases hs.cached c with ⟨hnone, hcached⟩ | ⟨p, id, k, v, -, -, hk, hv, -, hat, hcached⟩
    · rw [blitValidity, hcached, hnone]
      rfl
    · rw [blitValidity, hcached, hat, Option.elim_some]
      change (if length > k.rows ∨ ¬ b.uint8 ∨ length < 0 ∨ pos < 0 ∨
        pos > b.cells.length - length then _ else _) = _
      by_cases hfit : Fits k b length pos ∧ b.uint8
      · obtain ⟨⟨hlen, hrows, hpos, hdim⟩, hbyte⟩ := hfit
        rw [if_neg (by simp only [hbyte, not_true, false_or]; omega),
          if_pos ⟨⟨hlen, hrows, hpos, hdim⟩, hbyte⟩, copy_validity hk hv (by omega)]
        rfl
      · rw [if_neg hfit, if_pos]
        · rfl
        · unfold Fits at hfit
          by_cases hb : b.uint8 = true
          · simp only [hb, and_true] at hfit
            omega
          · exact .inr (.inl hb)

/-! ### Runs -/

theorem chunk_cacheVectors {p : Owner} {id : ℕ} {k : Chunk} {memory : Bool} :
    (cacheVectors p id k memory).chunk = p.chunk := by
  unfold cacheVectors
  dsimp only
  split
  · rfl
  · split <;> split <;> rfl

/-- Only a fetch that gives a chunk serves one, and only if there is memory for the cache. -/
theorem serving_of_step {s t : State} {a : Action} (hs : Coherent s) (h : step s a = some t)
    {k : Chunk} (hk : serving t = some k) : ∃ memory, a = .fetch (.chunk k memory) ∧
      (memory = true ∨ ∃ p, s.owner = some p ∧ p.vectors ≠ none) := by
  cases hp : s.owner with
  | none => simp [step, hp] at h
  | some p =>
    have hsound := hs.sound p hp
    cases a with
    | execute answer =>
      simp only [step, hp, Option.ite_none_right_eq_some, Option.some.injEq] at h
      obtain ⟨⟨-, hresult⟩, rfl⟩ := h
      have hchunk : p.chunk = none := by
        cases hc : p.chunk with
        | none => rfl
        | some id =>
          obtain ⟨k, -, hr⟩ := hsound.held id hc
          rw [hresult] at hr
          cases hr
      cases answer <;> simp [serving, execute, hchunk] at hk
    | fetch answer =>
      cases answer with
      | chunk k' memory =>
        simp only [step, hp, Option.ite_none_right_eq_some, Option.some.injEq] at h
        obtain ⟨hresult, rfl⟩ := h
        -- the chunk is served from the cache of its vectors, which an allocation must have made
        have hlive : (fetch s p (.chunk k' memory)).chunks s.next = some k' := if_pos rfl
        rw [serving] at hk
        change (if _ then Option.bind (cacheVectors _ _ _ _).chunk _ else none) = _ at hk
        rw [chunk_cacheVectors, Option.bind_some, hlive] at hk
        obtain ⟨hsome, hk⟩ := Option.ite_none_right_eq_some.mp hk
        refine ⟨memory, by rw [Option.some.inj hk], ?_⟩
        by_contra hno
        obtain ⟨hmemory, hvectors⟩ := not_or.mp hno
        have hnone : p.vectors = none := not_not.mp fun hv => hvectors ⟨p, rfl, hv⟩
        have hempty : ∃ status, cacheVectors
            { p.withoutChunk with status := .ok, chunk := some s.next } s.next k' memory =
              { p.withoutChunk with status := status, chunk := some s.next } :=
          cacheVectors_none hnone (.inr (by simpa using hmemory))
        obtain ⟨status, he⟩ := hempty
        rw [he] at hsome
        simp [Owner.withoutChunk, hnone] at hsome
      | cancelled | exhausted | failed =>
        simp only [step, hp, Option.some.injEq] at h
        subst h
        simp [serving, fetch, Owner.withoutChunk] at hk
    -- closing drops the cache with the chunk
    | closeResult | finishResultClose | closePrepared =>
      simp only [step, hp, Option.some.injEq] at h
      subst h
      simp [serving, clearResult, clearPrepared, cleared_eq hsound] at hk
    | finishPreparedClose =>
      simp only [step, hp, Option.some.injEq] at h
      subst h
      simp [serving] at hk

/-- A chunk of the result with columns is served, when there is memory for the cache. -/
theorem serving_fetch {s : State} {p : Owner} (hp : s.owner = some p) {k : Chunk}
    (hr : p.result = some (k.vectors.map Vector.type)) (hk : k.columnCount ≠ 0) :
    ∃ t, step s (.fetch (.chunk k true)) = some t ∧ serving t = some k := by
  refine ⟨fetch s p (.chunk k true), by simp [step, hp, hr], ?_⟩
  have hlive : (fetch s p (.chunk k true)).chunks s.next = some k := if_pos rfl
  have hsome : (cacheVectors { p.withoutChunk with status := .ok, chunk := some s.next } s.next k
      true).vectors.isSome = true := by
    cases hv : p.vectors with
    | none => simp [cacheVectors, Owner.withoutChunk, hv, hk]
    | some es => simp [cacheVectors, Owner.withoutChunk, hv]
  rw [serving]
  change (if _ then Option.bind (cacheVectors _ _ _ _).chunk _ else none) = _
  rw [if_pos hsome, chunk_cacheVectors, Option.bind_some, hlive]

/-- **The cache is coherent.** In every state that the stubs reach, the recorded types and widths
are those of the current result; the pointers found in the cache are those of the chunk that is
held, for each column below `vectorCount`, with its number of rows; reads and copies with any
numbers use the elements and the mask of that chunk where the column, the rows and the width are
right, and are refused elsewhere. After every step but a fetch that gave a chunk, and after one
whose cache could not be allocated, there is nothing to read. -/
theorem cache_coherent {s : State} (h : system.Reachable .free s) :
    (∀ p es, s.owner = some p → p.vectors = some es → ∃ types, p.result = some types ∧
      es.map (fun x => (x.type, x.width)) = types.map fun t => (t, typeWidth t)) ∧
    (∀ c rows x, cached s c = .ok (some (rows, x)) → ∃ p id k v, s.owner = some p ∧
      p.chunk = some id ∧ s.chunks id = some k ∧ vectorAt s c = some (k, v) ∧
      p.vectorCount = k.columnCount ∧ p.chunkRows = k.rows ∧ rows = k.rows ∧
      x = entryOf id c.toNat v) ∧
    Reads s ∧ Copies s ∧
    (∀ a t, step s a = some t → ∀ k, serving t = some k → ∃ memory,
      a = .fetch (.chunk k memory) ∧ (memory = true ∨ ∃ p, s.owner = some p ∧ p.vectors ≠ none)) ∧
    ∀ p, s.owner = some p → ∀ k, p.result = some (k.vectors.map Vector.type) →
      k.columnCount ≠ 0 → ∃ t, step s (.fetch (.chunk k true)) = some t ∧ serving t = some k := by
  have hs := coherent_of_reachable h
  refine ⟨fun p es hp he => (hs.sound p hp).recorded es he, fun c rows x hx => ?_,
    coherent_reads hs, coherent_copies hs, fun a t ht k hk => serving_of_step hs ht hk,
    fun p hp k hr hk => serving_fetch hp hr hk⟩
  rcases hs.cached c with ⟨-, hcached⟩ | ⟨p, id, k, v, hp, hid, hk, -, hcount, hat, hcached⟩
  · rw [hcached] at hx
    cases hx
  · rw [hcached] at hx
    cases hx
    -- the rows are recorded together with the pointers
    have hrows : p.chunkRows = k.rows := by
      cases hv : p.vectors with
      | none => simp [vectorAt, serving, hp, hv] at hat
      | some es => exact ((hs.sound p hp).pointers id k es hid hk hv).2
    exact ⟨p, id, k, v, hp, hid, hk, hat, hcount, hrows, rfl, rfl⟩

/-- A chunk of two rows of a SMALLINT column, the second one NULL. -/
def smallints : Chunk :=
  ⟨2, [⟨3, fun i => if i = 0 then 0xFFFF#64 else 7#64, fun _ => [], some fun _ => 1#64⟩]⟩

def cachedSmallints : State :=
  fetch (execute ⟨some prepare, fun _ => none, 0⟩ prepare (.result [3] true))
    { prepare with result := some [3] } (.chunk smallints true)

theorem reachable_cachedSmallints : system.Reachable .free cachedSmallints :=
  ⟨⟨some prepare, fun _ => none, 0⟩, [.execute (.result [3] true), .fetch (.chunk smallints true)],
    ⟨rfl, fun _ _ => rfl⟩, trivial, _, rfl, trivial, _, rfl, rfl⟩

/-- Row 0 is read at its width only, row 1 is NULL, and row 2 is refused. -/
theorem cache_coherent_smallints :
    read cachedSmallints 0 0 2 = .ok 0xFFFF#64 ∧ read cachedSmallints 0 0 4 = .ok 0 ∧
      readOr cachedSmallints 0 1 2 5 = .ok 5 ∧ read cachedSmallints 0 2 2 = .ok 0 :=
  have h := (cache_coherent reachable_cachedSmallints).2.2.1
  ⟨(h.read 0 0 2).trans (by rfl), (h.read 0 0 4).trans (by rfl), (h.readOr 0 1 2 5).trans (by rfl),
    (h.read 0 2 2).trans (by rfl)⟩

end DuckdbMl.Decode.Cache
