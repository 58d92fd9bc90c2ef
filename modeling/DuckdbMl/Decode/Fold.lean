import DuckdbMl.Decode.Row
import DuckdbMl.Failure.Scope

/-!
# Folds over the rows of a result

`fold_decoded` decodes a chunk's rows one by one, below the chunk's limit without the checks, and
hands each to a callback, until the callback stops.

## Main definitions

* `Rows`: a result as the engine hands it out, with what surrounds the fold
* `foldInternal`, `foldDecoded`: the fold over chunks, and over rows
* `agenda`: the rows of a result in order, each decoded cell by cell with `column`
* `walk`, `reference`: the fold as a walk along the agenda
* `Folded`: what a fold logs of the rows

## Main results

* `foldDecoded_eq`: the fold is the walk, with all its effects
* `reference_folded`: the walk hands on every row up to the first stop or failure, and no other
-/

namespace DuckdbMl.Decode

open Effects

/-- What a callback asks for. -/
inductive Step (α : Type)
  | stop (acc : α)
  | more (acc : α)

/-- How the chunks of a result end: none is left, or a fetch failed with a status. -/
inductive Ending
  | exhausted
  | fetchFailed (status : Except Cause Unit)

/-- The log of a fold: the rows decoded, and the callback's calls with their answers, `none` for an
exception. -/
inductive Event (ρ α : Type)
  | decoded (row : Except Cause ρ)
  | called (row : ρ) (acc : α) (answer : Option (Except Failure (Step α)))

structure Trace (S ρ α : Type) where
  events : List (Event ρ α)
  world : S

variable {S E ρ φ α β : Type} {F : Floats}

/-- An operation that logs nothing. -/
def untraced (c : Operation S E β) : Operation (Trace S ρ α) E β := fun s =>
  let r := c ⟨s.denied, s.inner.world⟩
  (r.1, ⟨r.2.denied, ⟨s.inner.events, r.2.inner⟩⟩)

def note (event : Event ρ α) : Operation (Trace S ρ α) E Unit :=
  Comp.modify fun s => ⟨s.denied, ⟨s.inner.events ++ [event], s.inner.world⟩⟩

/-- A call of the callback, logged with its answer. -/
def call (f : ρ → α → Operation S E (Except Failure (Step α))) (row : ρ) (acc : α) :
    Operation (Trace S ρ α) E (Except Failure (Step α)) := do
  let answer ← Comp.catching (untraced (f row acc)) fun e => do
    note (.called row acc none)
    Comp.raise e
  note (.called row acc (some answer))
  return answer

/-- A result and what the connection gives its folds: `admitOperation` and `finish` surround an
operation on its child, `checkpoint` sees a cancellation, `fetch` moves to the next chunk and
`destroy` closes the result. -/
structure Rows (S E : Type) where
  chunks : List Chunk
  ending : Ending
  columnTypes : List ℕ
  admitOperation : Operation S E (Except Cause Unit)
  finish : Operation S E Unit
  checkpoint : Operation S E (Except Cause Unit)
  fetch : Operation S E Unit
  destroy : Operation S E Unit

section Chunks

variable (r : Rows S E) (f : Chunk → β → Operation (Trace S ρ α) E (Except Cause (Step β)))

def finishWith (acc : β) : Operation (Trace S ρ α) E (Except Cause β) := do
  let checked ← untraced r.checkpoint
  return checked.map fun _ => acc

def atEnd (acc : β) : Operation (Trace S ρ α) E (Except Cause β) :=
  match r.ending with
  | .exhausted => finishWith r acc
  | .fetchFailed status => return status.bind fun _ => .error (.native "DuckDB fetch failed")

def chunkLoop : List Chunk → β → Operation (Trace S ρ α) E (Except Cause β)
  | chunks, acc => do
    match ← untraced r.checkpoint with
    | .error e => return .error e
    | .ok () =>
      untraced r.fetch
      match chunks with
      | [] => atEnd r acc
      | k :: chunks =>
        match ← untraced r.checkpoint with
        | .error e => return .error e
        | .ok () =>
          if k.rows = 0 then chunkLoop chunks acc
          else
            match ← f k acc with
            | .error e => return .error e
            | .ok (.stop acc) => finishWith r acc
            | .ok (.more acc) => chunkLoop chunks acc

/-- `fold_internal`, lifting errors as causes of a context. -/
def foldInternal (context : Context) (validate : List ℕ → Except Cause Unit) (init : β) :
    Operation (Trace S ρ α) E (Except Cause β) := do
  match ← untraced r.admitOperation with
  | .error e => return .error e
  | .ok () =>
    let work : Operation (Trace S ρ α) E (Except Cause β) := do
      match ← untraced r.checkpoint with
      | .error e => return .error e
      | .ok () =>
        match validate r.columnTypes with
        | .error e => return .error e
        | .ok () => chunkLoop r f r.chunks init
    Comp.protect .both (fun _ => untraced r.finish)
      (scope (.cause context) work (untraced r.destroy))

end Chunks

/-! ### Validation of the columns -/

def unresolved (actual : ℕ) : Bool := actual = invalid ∨ actual = anyType

/-- The base scalar each declared position crosses the boundary as. -/
def scalarIds : {φ : Type} → Fields F ρ φ → List (ℕ × String)
  | _, .nil => []
  | _, .cons codec fields =>
    (Scalar.nativeId codec.scalar, codec.scalar.name) :: scalarIds fields

def checkTypesFrom (i : ℕ) : List (ℕ × String) → List ℕ → Except Cause Unit
  | (id, name) :: declared, t :: actual =>
    if unresolved t ∨ t = id then checkTypesFrom (i + 1) declared actual
    else .error (.typeMismatch i name (typeName t))
  | _, _ => .ok ()

def checkTypes (declared : List (ℕ × String)) (actual : List ℕ) (countError : ℕ → ℕ → Cause) :
    Except Cause Unit :=
  if actual.length ≠ declared.length then .error (countError declared.length actual.length)
  else checkTypesFrom 0 declared actual

/-- `check_columns` for declared rows. -/
def checkColumns (fields : Fields F ρ φ) (actual : List ℕ) : Except Cause Unit :=
  checkTypes (scalarIds fields) actual .columnCount

/-! ### The fold over rows -/

section Loop

variable (r : Rows S E) (context : Context) (fields : Fields F ρ φ) (fn : φ)
  (f : ρ → α → Operation S E (Except Failure (Step α)))

def stopAt (e : Failure) (row : ℕ) :
    Operation (Trace S ρ α) E (Except Cause (Step (Except Failure α × ℕ))) :=
  return .ok (.stop (.error e, row))

def continueWith (row : ℕ) (acc : α) (value : ρ)
    (loop : α → Operation (Trace S ρ α) E (Except Cause (Step (Except Failure α × ℕ)))) :
    Operation (Trace S ρ α) E (Except Cause (Step (Except Failure α × ℕ))) := do
  match ← call f value acc with
  | .error e => stopAt e row
  | .ok (.stop acc) => return .ok (.stop (.ok acc, row + 1))
  | .ok (.more acc) => loop acc

/-- The last `left` rows of a chunk, from `row` on, after the `seen` rows of earlier chunks. Rows
below `below` take the fast path. -/
def rowLoop (k : Chunk) (below seen : ℕ) :
    ℕ → ℕ → α → Operation (Trace S ρ α) E (Except Cause (Step (Except Failure α × ℕ)))
  | 0, _, acc => return .ok (.more (.ok acc, seen + k.rows))
  | left + 1, row, acc => do
    match ← untraced r.checkpoint with
    | .error cause => stopAt ⟨context, cause⟩ (seen + row)
    | .ok () =>
      if row < below then
        match Decode.row k fields fn row with
        | .error rejected =>
          let cause := .decodeRejected rejected.column (seen + row) rejected.reason
          note (.decoded (.error cause))
          stopAt ⟨context, cause⟩ (seen + row)
        | .ok value =>
          note (.decoded (.ok value))
          continueWith f (seen + row) acc value (rowLoop k below seen left (row + 1))
      else
        match decodeRow k 0 row seen fields fn with
        | .error cause =>
          note (.decoded (.error cause))
          stopAt ⟨context, cause⟩ (seen + row)
        | .ok value =>
          note (.decoded (.ok value))
          continueWith f (seen + row) acc value (rowLoop k below seen left (row + 1))

/-- The callback of the fold over chunks: rows below the limit of the chunk take the fast path. The
accumulator carries a failure as an early stop. -/
def chunkRows (k : Chunk) (acc : Except Failure α × ℕ) :
    Operation (Trace S ρ α) E (Except Cause (Step (Except Failure α × ℕ))) :=
  match acc.1 with
  | .error _ => return .ok (.stop acc)
  | .ok a => rowLoop r context fields fn f k (limit k fields k.rows) acc.2 k.rows 0 a

/-- `fold_decoded`. -/
def foldDecoded (validate : List ℕ → Except Cause Unit) (init : α) :
    Operation (Trace S ρ α) E (Except Failure (Except Failure α)) := do
  let outcome ← foldInternal r (chunkRows r context fields fn f) context validate (.ok init, 0)
  return (within context outcome).map Prod.fst

end Loop

/-- The rows a request declares. -/
inductive Declared (F : Floats) : Type → Type 1
  | rows {ρ φ : Type} (fields : Fields F ρ φ) (fn : φ) : Declared F ρ
  | noRows : Declared F Unit

def foldResult (r : Rows S E) (context : Context) : Declared F ρ →
    (ρ → α → Operation S E (Except Failure (Step α))) → α →
    Operation (Trace S ρ α) E (Except Failure α)
  | .rows fields fn, f, init => do
    return (← foldDecoded r context fields fn f (checkColumns fields) init).bind id
  | .noRows, f, init => do
    return (← foldDecoded r context (F := F) .nil () f (fun _ => .ok ()) init).bind id

/-! ### The reference -/

/-- What a fold comes across: a chunk, and the rows of it. -/
inductive Item (ρ : Type)
  | chunk
  | row (value : Except Cause ρ)

/-- The rows of a chunk, each decoded cell by cell, after `seen` rows of earlier chunks. -/
def chunkValues (fields : Fields F ρ φ) (fn : φ) (seen : ℕ) (k : Chunk) : List (Except Cause ρ) :=
  (List.range' 0 k.rows).map fun row => decodeRow k 0 row seen fields fn

def agenda (fields : Fields F ρ φ) (fn : φ) : ℕ → List Chunk → List (Item ρ)
  | _, [] => []
  | seen, k :: chunks =>
    .chunk :: (chunkValues fields fn seen k).map .row ++ agenda fields fn (seen + k.rows) chunks

def decodedRows (fields : Fields F ρ φ) (fn : φ) : ℕ → List Chunk → List (Except Cause ρ)
  | _, [] => []
  | seen, k :: chunks =>
    chunkValues fields fn seen k ++ decodedRows fields fn (seen + k.rows) chunks

section Reference

variable (r : Rows S E) (context : Context)
  (f : ρ → α → Operation S E (Except Failure (Step α)))

/-- An answer is given after a last look for a cancellation. -/
def settle (answer : Except Failure α) :
    Operation (Trace S ρ α) E (Except Failure (Except Failure α)) := do
  match ← untraced r.checkpoint with
  | .error cause => return .error ⟨context, cause⟩
  | .ok () => return .ok answer

/-- What the answer to a row leads to. -/
def follow (next : α → Operation (Trace S ρ α) E (Except Failure (Except Failure α))) :
    Except Failure (Step α) → Operation (Trace S ρ α) E (Except Failure (Except Failure α))
  | .error e => settle r context (.error e)
  | .ok (.stop acc) => settle r context (.ok acc)
  | .ok (.more acc) => next acc

/-- A row that decodes is handed on. -/
def handOn (acc : α) (next : α → Operation (Trace S ρ α) E (Except Failure (Except Failure α))) :
    Except Cause ρ → Operation (Trace S ρ α) E (Except Failure (Except Failure α))
  | .error cause => settle r context (.error ⟨context, cause⟩)
  | .ok value => do follow r context next (← call f value acc)

/-- A checkpoint before every chunk and every row, and one after each chunk has been fetched. -/
def walk : List (Item ρ) → α → Operation (Trace S ρ α) E (Except Failure (Except Failure α))
  | [], acc => do
    match ← untraced r.checkpoint with
    | .error cause => return .error ⟨context, cause⟩
    | .ok () =>
      untraced r.fetch
      match r.ending with
      | .exhausted => settle r context (.ok acc)
      | .fetchFailed (.error cause) => return .error ⟨context, cause⟩
      | .fetchFailed (.ok ()) => return .error ⟨context, .native "DuckDB fetch failed"⟩
  | .chunk :: items, acc => do
    match ← untraced r.checkpoint with
    | .error cause => return .error ⟨context, cause⟩
    | .ok () =>
      untraced r.fetch
      match ← untraced r.checkpoint with
      | .error cause => return .error ⟨context, cause⟩
      | .ok () => walk items acc
  | .row value :: items, acc => do
    match ← untraced r.checkpoint with
    | .error cause => settle r context (.error ⟨context, cause⟩)
    | .ok () =>
      note (.decoded value)
      handOn r context f acc (walk items) value

/-- **The fold that decodes every cell of every row with `column`**, one row after the other. -/
def reference (fields : Fields F ρ φ) (fn : φ) (validate : List ℕ → Except Cause Unit) (init : α) :
    Operation (Trace S ρ α) E (Except Failure (Except Failure α)) := do
  match ← untraced r.admitOperation with
  | .error cause => return .error ⟨context, cause⟩
  | .ok () =>
    let work : Operation (Trace S ρ α) E (Except Failure (Except Failure α)) := do
      match ← untraced r.checkpoint with
      | .error cause => return .error ⟨context, cause⟩
      | .ok () =>
        match validate r.columnTypes with
        | .error cause => return .error ⟨context, cause⟩
        | .ok () => walk r context f (agenda fields fn 0 r.chunks) init
    Comp.protect .both (fun _ => untraced r.finish)
      (scope (.failure context) work (untraced r.destroy))

end Reference

/-! ### The fold is the walk -/

section Agreement

variable {r : Rows S E} {context : Context} {fields : Fields F ρ φ} {fn : φ}
  {f : ρ → α → Operation S E (Except Failure (Step α))}

/-- An outcome of the fold over chunks, as that of the fold over rows. -/
def outcomeOf (context : Context) (o : Except Cause (Except Failure α × ℕ)) :
    Except Failure (Except Failure α) :=
  (within context o).map Prod.fst

theorem map_finishWith (answer : Except Failure α) (n : ℕ) :
    outcomeOf context <$> finishWith (ρ := ρ) (α := α) r (answer, n) = settle r context answer := by
  rw [finishWith, settle, map_bind]
  congr 1
  funext checked
  cases checked <;> rfl

/-- What the fold over chunks makes of the rows of one. -/
def resume (r : Rows S E) (g : Chunk → β → Operation (Trace S ρ α) E (Except Cause (Step β)))
    (chunks : List Chunk) : Except Cause (Step β) → Operation (Trace S ρ α) E (Except Cause β)
  | .error e => return .error e
  | .ok (.stop acc) => finishWith r acc
  | .ok (.more acc) => chunkLoop r g chunks acc

/-- The rows of a chunk, and then the later chunks. -/
theorem map_rowLoop {k : Chunk} {chunks : List Chunk} {seen : ℕ}
    {g : Chunk → Except Failure α × ℕ →
      Operation (Trace S ρ α) E (Except Cause (Step (Except Failure α × ℕ)))}
    {items : List (Item ρ)}
    (hrest : ∀ acc, outcomeOf context <$> chunkLoop r g chunks (.ok acc, seen + k.rows) =
      walk r context f items acc) (left row : ℕ) (acc : α) :
    outcomeOf context <$> (rowLoop r context fields fn f k (limit k fields k.rows) seen left row acc
        >>= resume r g chunks) =
      walk r context f (((List.range' row left).map fun row =>
        Item.row (decodeRow k 0 row seen fields fn)) ++ items) acc := by
  -- the rows of the chunk that are left; after them comes the rest of the walk (`hrest`)
  induction left generalizing row acc with
  | zero =>
    rw [rowLoop, pure_bind]
    exact hrest acc
  | succ left ih =>
    rw [List.range'_succ, List.map_cons, List.cons_append, rowLoop, walk, bind_assoc, map_bind]
    congr 1
    funext checked
    cases checked with
    | error cause =>
      dsimp only
      rw [stopAt, pure_bind]
      exact map_finishWith _ _
    | ok u =>
      -- a failure ends the loop, and so the walk
      have hstop : ∀ (e : Failure) (n : ℕ), outcomeOf context <$>
          (stopAt e n >>= resume r g chunks) = settle r context (.error e) := by
        intro e n
        rw [stopAt, pure_bind]
        exact map_finishWith _ _
      -- a row goes to the callback, which stops the loop or lets it go on with the next row (`ih`)
      have hvalue : ∀ value, outcomeOf context <$>
          (continueWith f (seen + row) acc value (rowLoop r context fields fn f k
            (limit k fields k.rows) seen left (row + 1)) >>= resume r g chunks) =
          handOn r context f acc (walk r context f (((List.range' (row + 1) left).map fun row =>
            Item.row (decodeRow k 0 row seen fields fn)) ++ items)) (.ok value) := by
        intro value
        rw [continueWith, bind_assoc, map_bind]
        congr 1
        funext answer
        match answer with
        | .error e => exact hstop e _
        | .ok (.stop acc) =>
          dsimp only
          rw [pure_bind]
          exact map_finishWith _ _
        | .ok (.more acc) => exact ih (row + 1) acc
      dsimp only
      by_cases hrow : row < limit k fields k.rows
      · -- the one place where the fast path is taken
        rw [if_pos hrow, row_eq_decodeRow seen hrow]
        cases Decode.row k fields fn row with
        | error rejected =>
          dsimp only [Except.mapError, Rejected.cause]
          rw [bind_assoc, map_bind]
          congr 1
          funext u
          exact hstop _ _
        | ok value =>
          dsimp only [Except.mapError]
          rw [bind_assoc, map_bind]
          congr 1
          funext u
          exact hvalue value
      · rw [if_neg hrow]
        cases decodeRow k 0 row seen fields fn with
        | error cause =>
          dsimp only
          rw [bind_assoc, map_bind]
          congr 1
          funext u
          exact hstop _ _
        | ok value =>
          dsimp only
          rw [bind_assoc, map_bind]
          congr 1
          funext u
          exact hvalue value

/-- The chunks of a result, from any of them on. -/
theorem map_chunkLoop (chunks : List Chunk) (seen : ℕ) (acc : α) :
    outcomeOf context <$> chunkLoop r (chunkRows r context fields fn f) chunks (.ok acc, seen) =
      walk r context f (agenda fields fn seen chunks) acc := by
  induction chunks generalizing seen acc with
  -- after the last chunk: the end of the rows, or a fetch that failed
  | nil =>
    rw [chunkLoop, agenda, walk, map_bind]
    congr 1
    funext checked
    cases checked with
    | error cause => rfl
    | ok u =>
      dsimp only
      rw [map_bind]
      congr 1
      funext u
      rw [atEnd]
      match r.ending with
      | .exhausted => exact map_finishWith _ _
      | .fetchFailed (.ok ()) => rfl
      | .fetchFailed (.error cause) => rfl
  -- a chunk: cancellation is seen before and after the fetch
  | cons k chunks ih =>
    rw [chunkLoop, agenda, List.cons_append, walk, map_bind]
    congr 1
    funext checked
    cases checked with
    | error cause => rfl
    | ok u =>
      dsimp only
      rw [map_bind]
      congr 1
      funext u
      rw [map_bind]
      congr 1
      funext checked
      cases checked with
      | error cause => rfl
      | ok u =>
        dsimp only
        by_cases hrows : k.rows = 0
        · -- an empty chunk has no row and counts for none
          rw [if_pos hrows, ih, chunkValues, hrows, Nat.add_zero]
          rfl
        · rw [if_neg hrows, chunkValues, List.map_map]
          refine Eq.trans ?_ (map_rowLoop (fun acc => ih (seen + k.rows) acc) k.rows 0 acc)
          rw [chunkRows]
          congr 2

/-- **The fold is the walk**: it has the outcome, the calls and the effects of the walk that decodes
cell by cell. -/
theorem foldDecoded_eq (validate : List ℕ → Except Cause Unit) (init : α) :
    foldDecoded r context fields fn f validate init =
      reference r context f fields fn validate init := by
  have hfold : foldDecoded r context fields fn f validate init = outcomeOf context <$>
      foldInternal r (chunkRows r context fields fn f) context validate (.ok init, 0) := rfl
  rw [hfold, foldInternal, reference, map_bind]
  congr 1
  funext admitted
  cases admitted with
  | error cause => rfl
  | ok u =>
    dsimp only
    have hfinish : ∀ c : Operation (Trace S ρ α) E (Except Cause (Except Failure α × ℕ)),
        outcomeOf context <$> Comp.protect Exn.both (fun _ => untraced r.finish) c =
          Comp.protect Exn.both (fun _ => untraced r.finish) (outcomeOf context <$> c) :=
      fun c => (Comp.protect_map (g := outcomeOf context) (fun _ => rfl) rfl c).symm
    rw [hfinish, ← scope_map (fun _ => rfl) (fun a => ⟨a.1, rfl⟩)]
    congr 2
    rw [map_bind]
    congr 1
    funext checked
    cases checked with
    | error cause => rfl
    | ok u =>
      dsimp only
      cases validate r.columnTypes with
      | error cause => rfl
      | ok u => exact map_chunkLoop r.chunks 0 init

end Agreement

/-! ### What a fold logs -/

def Item.row? : Item ρ → Option (Except Cause ρ)
  | .chunk => none
  | .row value => some value

theorem filterMap_agenda (fields : Fields F ρ φ) (fn : φ) (seen : ℕ) (chunks : List Chunk) :
    (agenda fields fn seen chunks).filterMap Item.row? = decodedRows fields fn seen chunks := by
  induction chunks generalizing seen with
  | nil => rfl
  | cons k chunks ih =>
    have hvalues : ((chunkValues fields fn seen k).map Item.row).filterMap Item.row? =
        chunkValues fields fn seen k := by
      rw [List.filterMap_map]
      exact List.filterMap_some
    rw [agenda, List.cons_append, List.filterMap_cons_none rfl, List.filterMap_append, hvalues, ih,
      decodedRows]

/-- A log of a fold over rows: they are decoded in order, each is passed to the callback with the
accumulator so far, and nothing follows a rejected row or an answer that does not ask for more. At
the end stands the accumulator of a stop or of the last row, or none where the fold was cut short. -/
inductive Folded : List (Except Cause ρ) → α → List (Event ρ α) → Option α → Prop
  | cut (rows acc) : Folded rows acc [] none
  | ended (acc) : Folded [] acc [] (some acc)
  | rejected (cause rows acc) : Folded (.error cause :: rows) acc [.decoded (.error cause)] none
  | failed {answer : Option (Except Failure (Step α))} (value rows acc)
      (h : ∀ step, answer ≠ some (.ok step)) :
      Folded (.ok value :: rows) acc [.decoded (.ok value), .called value acc answer] none
  | stopped (value rows acc acc') : Folded (.ok value :: rows) acc
      [.decoded (.ok value), .called value acc (some (.ok (.stop acc')))] (some acc')
  | more {value rows acc acc' events last} (h : Folded rows acc' events last) :
      Folded (.ok value :: rows) acc
        (.decoded (.ok value) :: .called value acc (some (.ok (.more acc'))) :: events) last

/-- The log has grown by one of a fold over the rows, and an accumulator returned is the last. -/
def Grown (rows : List (Except Cause ρ)) (acc : α) (log : List (Event ρ α))
    (outcome : Except (Exn E) (Except Failure (Except Failure α))) (log' : List (Event ρ α)) :
    Prop :=
  ∃ events last, log' = log ++ events ∧ Folded rows acc events last ∧
    ∀ acc', outcome = .ok (.ok (.ok acc')) → last = some acc'

section Log

variable {r : Rows S E} {context : Context} {fields : Fields F ρ φ} {fn : φ}
  {f : ρ → α → Operation S E (Except Failure (Step α))} {log : List (Event ρ α)}

theorem triple_untraced {c : Operation S E β} {Q : List (Event ρ α) → Prop} :
    Triple (fun s : Handled (Trace S ρ α) => Q s.inner.events) (untraced c)
      fun _ t => Q t.inner.events :=
  fun _ h => h

theorem triple_note {event : Event ρ α} :
    Triple (E := Exn E) (fun s : Handled (Trace S ρ α) => s.inner.events = log) (note event)
      fun r t => r = .ok () ∧ t.inner.events = log ++ [event] :=
  fun _ hs => ⟨rfl, congrArg (· ++ _) hs⟩

/-- A call logs itself with its answer. -/
theorem triple_call {row : ρ} {acc : α} :
    Triple (fun s : Handled (Trace S ρ α) => s.inner.events = log) (call f row acc)
      fun answer t => t.inner.events = log ++ [.called row acc answer.toOption] := by
  refine Triple.bind (Q := fun answer t => match answer with
      | .ok _ => t.inner.events = log
      | .error _ => t.inner.events = log ++ [.called row acc none])
    (Triple.catching (triple_untraced (Q := (· = log))) (fun _ _ h => h) fun e => ?_)
    (fun _ _ h => h) fun answer => ?_
  · exact triple_note.bind (fun _ _ h => nomatch (And.left h)) fun _ => Triple.raise fun _ h => h.2
  · exact triple_note.bind (fun _ _ h => nomatch (And.left h)) fun _ => Triple.pure fun _ h => h.2

theorem grown_cut {rows : List (Except Cause ρ)} {acc : α}
    {outcome : Except (Exn E) (Except Failure (Except Failure α))} {log' : List (Event ρ α)}
    (hlog : log' = log) (hout : ∀ acc', outcome ≠ .ok (.ok (.ok acc'))) :
    Grown rows acc log outcome log' :=
  ⟨[], none, hlog.trans (List.append_nil _).symm, .cut _ _, fun acc' h => absurd h (hout acc')⟩

/-- An answer that is settled is the one returned. -/
theorem triple_settle {answer : Except Failure α} :
    Triple (fun s : Handled (Trace S ρ α) => s.inner.events = log) (settle r context answer)
      fun outcome t => t.inner.events = log ∧ ∀ a, outcome = .ok (.ok a) → a = answer := by
  refine Triple.bind (triple_untraced (Q := (· = log))) (fun e s h => ⟨h, nofun⟩) fun checked => ?_
  cases checked with
  | error cause => exact Triple.pure fun s h => ⟨h, nofun⟩
  | ok u => exact Triple.pure fun s h => ⟨h, fun a ha => by cases ha; rfl⟩

/-- An answer that is settled closes the log. -/
theorem triple_settle_grown {rows : List (Except Cause ρ)} {acc : α} {events : List (Event ρ α)}
    {last : Option α} {answer : Except Failure α} (h : Folded rows acc events last)
    (hanswer : ∀ acc', answer = .ok acc' → last = some acc') :
    Triple (fun s : Handled (Trace S ρ α) => s.inner.events = log ++ events)
      (settle r context answer) fun o t => Grown rows acc log o t.inner.events :=
  triple_settle.conseq (fun _ h => h) fun _ _ hs =>
    ⟨events, last, hs.1, h, fun acc' hout => hanswer acc' (hs.2 _ hout).symm⟩

/-- **The walk hands on every row** up to the first stop or failure, and no other. -/
theorem triple_walk (items : List (Item ρ)) (acc : α) :
    Triple (fun s : Handled (Trace S ρ α) => s.inner.events = log) (walk r context f items acc)
      fun o t => Grown (items.filterMap Item.row?) acc log o t.inner.events := by
  induction items generalizing acc log with
  -- the end: every row was handed on, and the accumulator is the last one
  | nil =>
    rw [walk]
    refine Triple.bind (triple_untraced (Q := (· = log))) (fun e s h => grown_cut h nofun)
      fun checked => ?_
    cases checked with
    | error cause => exact Triple.pure fun s h => grown_cut h nofun
    | ok u =>
      refine Triple.bind (triple_untraced (Q := (· = log))) (fun e s h => grown_cut h nofun)
        fun u => ?_
      match r.ending with
      | .exhausted =>
        refine (triple_settle_grown (.ended acc) fun acc' h => by cases h; rfl).conseq
          (fun s h => h.trans (List.append_nil log).symm) fun _ _ h => h
      | .fetchFailed (.ok ()) => exact Triple.pure fun s h => grown_cut h nofun
      | .fetchFailed (.error cause) => exact Triple.pure fun s h => grown_cut h nofun
  | cons item items ih =>
    cases item with
    -- a fetch logs nothing
    | chunk =>
      rw [walk, List.filterMap_cons_none rfl]
      refine Triple.bind (triple_untraced (Q := (· = log))) (fun e s h => grown_cut h nofun)
        fun checked => ?_
      cases checked with
      | error cause => exact Triple.pure fun s h => grown_cut h nofun
      | ok u =>
        refine Triple.bind (triple_untraced (Q := (· = log))) (fun e s h => grown_cut h nofun)
          fun u => Triple.bind (triple_untraced (Q := (· = log)))
            (fun e s h => grown_cut h nofun) fun checked => ?_
        cases checked with
        | error cause => exact Triple.pure fun s h => grown_cut h nofun
        | ok u => exact ih acc
    -- a row is logged when it is handed on; what follows it depends on the answer
    | row value =>
      have hcons : (Item.row value :: items).filterMap Item.row? =
          value :: items.filterMap Item.row? := rfl
      rw [walk, hcons]
      refine Triple.bind (triple_untraced (Q := (· = log))) (fun e s h => grown_cut h nofun)
        fun checked => ?_
      cases checked with
      | error cause =>
        exact (triple_settle_grown (.cut _ acc) fun _ h => by cases h).conseq
          (fun s h => h.trans (List.append_nil log).symm) fun _ _ h => h
      | ok u =>
        refine triple_note.bind (fun _ _ h => nomatch (And.left h)) fun _ => ?_
        refine Triple.conseq ?_ (fun s h => h.2) fun _ _ h => h
        cases value with
        | error cause => exact triple_settle_grown (.rejected _ _ _) nofun
        | ok value =>
          refine Triple.bind triple_call (fun e s h => ?_) fun answer => ?_
          · refine ⟨_, none, h.trans (List.append_assoc ..), .failed value _ acc nofun, nofun⟩
          · simp only [List.append_assoc]
            match answer with
            | .error e => exact triple_settle_grown (.failed value _ acc nofun) nofun
            | .ok (.stop acc') =>
              exact triple_settle_grown (.stopped value _ acc acc') fun _ h => by cases h; rfl
            | .ok (.more acc') =>
              refine (ih acc').conseq (fun _ h => h) fun outcome s hs => ?_
              obtain ⟨events, last, hlog, hfolded, hlast⟩ := hs
              exact ⟨_, last, hlog.trans (List.append_assoc ..), .more hfolded, hlast⟩

theorem events_completeCleanup (cleanup : Operation S E Unit) (s : Handled (Trace S ρ α)) :
    (completeCleanup (untraced cleanup) s).2.inner.events = s.inner.events :=
  triple_completeCleanup (I := fun t => t.inner.events = s.inner.events)
    (triple_untraced (Q := (· = s.inner.events))) s rfl

/-- The scope of the fold logs what its work does, and returns no other accumulator. -/
theorem triple_scope_grown {rows : List (Except Cause ρ)} {acc : α}
    {work : Operation (Trace S ρ α) E (Except Failure (Except Failure α))}
    {cleanup : Operation S E Unit}
    (hwork : Triple (fun s : Handled (Trace S ρ α) => s.inner.events = log) work
      fun o t => Grown rows acc log o t.inner.events) :
    Triple (fun s : Handled (Trace S ρ α) => s.inner.events = log)
      (scope (.failure context) work (untraced cleanup))
      fun o t => Grown rows acc log o t.inner.events := by
  intro s hs
  obtain ⟨events, last, hlog, hfolded, hlast⟩ := hwork { s with denied := false } hs
  refine ⟨events, last, ?_, hfolded, fun acc' hout => ?_⟩
  · rw [scope_snd, events_completeCleanup, withoutEscapingEffects_inner, hlog]
  · rcases scope_fst hout with h | ⟨cause, -, h⟩
    · obtain ⟨t, ht, -⟩ := withoutEscapingEffects_ok h
      exact hlast acc' (by rw [ht])
    · cases h

/-- The end of the operation changes neither. -/
theorem triple_protect_grown {rows : List (Except Cause ρ)} {acc : α}
    {work : Operation (Trace S ρ α) E (Except Failure (Except Failure α))}
    {finish : Operation S E Unit}
    (hwork : Triple (fun s : Handled (Trace S ρ α) => s.inner.events = log) work
      fun o t => Grown rows acc log o t.inner.events) :
    Triple (fun s : Handled (Trace S ρ α) => s.inner.events = log)
      (Comp.protect .both (fun _ => untraced finish) work)
      fun o t => Grown rows acc log o t.inner.events := by
  intro s hs
  obtain ⟨events, last, hlog, hfolded, hlast⟩ := hwork s hs
  unfold Comp.protect
  rcases hw : work s with ⟨e | a, t⟩
  · rw [hw] at hlog
    have hfinish : (untraced finish t).2.inner.events = t.inner.events := rfl
    dsimp only
    rcases hf : untraced finish t with ⟨e' | u, t'⟩
    · exact ⟨events, last, by rw [← hlog, ← hfinish, hf], hfolded, nofun⟩
    · exact ⟨events, last, by rw [← hlog, ← hfinish, hf], hfolded, nofun⟩
  · rw [hw] at hlog hlast
    have hfinish : (untraced finish t).2.inner.events = t.inner.events := rfl
    dsimp only [Comp.andThen]
    rcases hf : untraced finish t with ⟨e' | u, t'⟩
    · exact ⟨events, last, by rw [← hlog, ← hfinish, hf], hfolded, nofun⟩
    · exact ⟨events, last, by rw [← hlog, ← hfinish, hf]; rfl, hfolded, hlast⟩

/-- **The rows of the reference**: decoded and handed on in order, all of them up to the first stop
or failure. -/
theorem reference_folded (validate : List ℕ → Except Cause Unit) (init : α)
    (s : Handled (Trace S ρ α)) :
    Grown (decodedRows fields fn 0 r.chunks) init s.inner.events
      (reference r context f fields fn validate init s).1
      (reference r context f fields fn validate init s).2.inner.events := by
  have h : Triple (fun t : Handled (Trace S ρ α) => t.inner.events = s.inner.events)
      (reference r context f fields fn validate init) fun o t =>
        Grown (decodedRows fields fn 0 r.chunks) init s.inner.events o t.inner.events := by
    rw [reference]
    refine Triple.bind (triple_untraced (Q := (· = s.inner.events)))
      (fun e t ht => grown_cut ht nofun) fun admitted => ?_
    cases admitted with
    | error cause => exact Triple.pure fun t ht => grown_cut ht nofun
    | ok u =>
      refine triple_protect_grown (triple_scope_grown ?_)
      refine Triple.bind (triple_untraced (Q := (· = s.inner.events)))
        (fun e t ht => grown_cut ht nofun) fun checked => ?_
      cases checked with
      | error cause => exact Triple.pure fun t ht => grown_cut ht nofun
      | ok u =>
        dsimp only
        cases validate r.columnTypes with
        | error cause => exact Triple.pure fun t ht => grown_cut ht nofun
        | ok u =>
          rw [← filterMap_agenda]
          exact triple_walk _ _
  exact h s rfl

end Log

/-- **Decoding below the limit is decoding cell by cell.** The fold has the outcome, the calls and
the effects of the walk along the rows that decodes every cell with `column`. The rows are decoded
in order, each is handed on with the accumulator so far, and none is after the first stop, rejection
or failure; an accumulator that is returned is that of a stop or of the last row. -/
theorem foldDecoded_refines (r : Rows S E) (context : Context) (fields : Fields F ρ φ) (fn : φ)
    (f : ρ → α → Operation S E (Except Failure (Step α)))
    (validate : List ℕ → Except Cause Unit) (init : α) :
    foldDecoded r context fields fn f validate init =
        reference r context f fields fn validate init ∧
      ∀ s, ∃ events last,
        (foldDecoded r context fields fn f validate init s).2.inner.events =
          s.inner.events ++ events ∧
        Folded (decodedRows fields fn 0 r.chunks) init events last ∧
        ∀ acc, (foldDecoded r context fields fn f validate init s).1 = .ok (.ok (.ok acc)) →
          last = some acc := by
  refine ⟨foldDecoded_eq validate init, fun s => ?_⟩
  rw [foldDecoded_eq]
  exact reference_folded validate init s

end DuckdbMl.Decode
