import DuckdbMl.Decode.Row
import DuckdbMl.Parquet.Transaction

/-!
# Parquet export

An export checks the types of its query, reserves a temporary file next to the destination, copies
into it, and publishes it by one link, which fails when the destination exists. The temporary file
is removed on every exit.

## Main definitions

* `checkTypes`, `reserveTemporary`, `copyTo`, `publish`, `remove`: the steps of an export
* `exportQuery`: an export
* `Stage`: how far an export has come with its files

## Main results

* `stage_publishing`: what copying and publishing make of a reserved file
* `export_no_partial_output`: the files after an export, however it ends
-/

namespace DuckdbMl.Parquet

open Effects
open DuckdbMl.Sql (Scalar)
open DuckdbMl.Decode (scalars typeName)

variable {E α : Type} {destination : String} {complete : Content}

/-! ### The steps of an export -/

/-- The writer turns seconds and milliseconds into microseconds. -/
def exportable : List ℕ :=
  (scalars.filter fun t => t ≠ .timestampS ∧ t ≠ .timestampMs).map Decode.Scalar.nativeId

def checkTypes (types : List ℕ) : Result :=
  match types.findIdx? (· ∉ exportable) with
  | none => .ok ()
  | some column =>
    .error (.unsupportedParquetType column (typeName ((types[column]?).getD Decode.invalid)))

def lifting (destination : String) : Lifting Cause := Lifting.cause (.parquet destination)

/-- `release` runs after a failure or an exception. -/
def releasing (release : Op E Unit) (c : Op E (Except Cause α)) : Op E (Except Cause α) := fun s =>
  match c s with
  | (.ok (.ok a), t) => (.ok (.ok a), t)
  | (.ok (.error e), t) => (release >>= fun _ => pure (.error e)) t
  | (.error x, t) => Comp.protect .both (fun _ => release) (Comp.raise x) t

section Definitions

variable (env : Surroundings E destination complete)

/-- A prepared statement, closed on every exit of `f`. -/
def withPrepared (sql : String) (f : Op E (Except Cause α)) : Op E (Except Cause α) :=
  andOk (return if '\x00' ∈ sql.toList then .error .embeddedNul else .ok ()) fun _ =>
    andOk (withAdmission env (releasing (ask env.cleanup)
      (andOk (engine env) fun _ => checkpoint env))) fun _ =>
        scope (lifting destination) f (ask env.cleanup)

/-- The column types of a SELECT without parameters. -/
def selectSchema : Op E (Except Cause (List ℕ)) :=
  withAdmission env (andOk (ask env.columns) fun types => andOk (checkpoint env) fun _ =>
    return .ok types)

def typeCheck (query : String) : Op E Result :=
  withPrepared env query (andOk (selectSchema env) fun types => return checkTypes types)

/-- A new empty file. -/
def tempFile : Op E (Except Cause String) := fun s =>
  match env.temporary s.inner.time s.inner.disk.files with
  | .error c => (.ok (.error c), s)
  | .ok p =>
    let disk := s.inner.disk
    (.ok (.ok p), { s with inner := { s.inner with
      disk := ⟨Function.update disk.files p (some []), disk.log ++ [.reserved p]⟩ } })

def admitLocalFile : Op E Bool := ask fun n => (env.interrupt n).map fun _ => !env.latched n

/-- The temporary file is made at once when the latch admits it. -/
def reserveTemporary : Op E (Except Cause String) :=
  withAdmission env do
    match ← admitLocalFile env with
    | false => return .error .cancelled
    | true => tempFile env

/-- The engine writes the temporary file, in part when it fails. -/
def copyNative (temporary : String) : Op E Result := fun s =>
  let (content, r) := env.copy s.inner.time
  let disk := s.inner.disk
  let log := match r with
    | .ok (.ok ()) => disk.log ++ [.copied temporary]
    | _ => disk.log
  (r, { s with inner := { s.inner with
    disk := ⟨Function.update disk.files temporary content, log⟩
    time := s.inner.time + 1 } })

/-- The parameter types are validated before the execution, and again after it. -/
def executeCopy (temporary : String) : Op E Result :=
  withAdmission env (releasing (ask env.cleanup)
    (andOk (engine env) fun _ => andOk (checkpoint env) fun _ => andOk (copyNative env temporary)
      fun _ => andOk (checkpoint env) fun _ => andOk (engine env) fun _ => checkpoint env))

def closeResult : Op E Result := andOk (engine env) fun _ => do
  ask env.cleanup
  return .ok ()

def copySql (query : String) : String :=
  "COPY (\n" ++ query ++ "\n) TO $__duckdb_ml_destination (FORMAT PARQUET)"

def copyTo (query temporary : String) : Op E Result :=
  withPrepared env (copySql query)
    (andOk (withAdmission env (andOk (engine env) fun _ => checkpoint env)) fun _ =>
      andOk (executeCopy env temporary) fun _ => closeResult env)

/-- The outcomes of the native publication. -/
inductive Published
  | cancelled
  | done
  | exists
  | failed (c : Cause)

/-- The native publication: its admission reads the latch, and it makes the only link. -/
def publishAdmitted (temporary : String) : Op E Published := fun s =>
  let n := s.inner.time
  let disk := s.inner.disk
  let (published, disk) :=
    if env.latched n then (Published.cancelled, disk)
    else
      let log := disk.log ++ [.admitted n]
      match disk.files destination, env.link n, disk.files temporary with
      | some _, _, _ => (.exists, { disk with log := log })
      | none, .error c, _ => (.failed c, { disk with log := log })
      | none, .ok (), none =>
        (.failed (.native "No such file or directory"), { disk with log := log })
      | none, .ok (), some content =>
        (.done, ⟨Function.update disk.files destination (some content),
          log ++ [.linked temporary]⟩)
  ((env.interrupt n).map fun _ => published,
    { s with inner := { s.inner with disk := disk, time := n + 1 } })

def publish (temporary : String) : Op E Result :=
  withAdmission env do
    ask env.interrupt
    match ← publishAdmitted env temporary with
    | .cancelled => return .error .cancelled
    | .done => checkpoint env
    | .exists => return .error .destinationExists
    | .failed c => return .error c

/-- The removal succeeds unless it is interrupted, also when there is no file. -/
def remove (temporary : String) : Op E Unit := fun s =>
  if s.inner.cut then (.error .sysBreak, { s with inner := { s.inner with cut := false } })
  else (.ok (), { s with inner := { s.inner with
    disk := { s.inner.disk with files := Function.update s.inner.disk.files temporary none } } })

def publishing (query temporary : String) : Op E Result :=
  andOk (copyTo env query temporary) fun _ => andOk (checkpoint env) fun _ => publish env temporary

/-- The callback of an export's transaction. -/
def exporting (query : String) : Op E Result :=
  andOk (typeCheck env query) fun _ => andOk (reserveTemporary env) fun temporary =>
    scope (lifting destination) (publishing env query temporary) (remove temporary)

def exportQuery (query : String) : Op E (Except Failure Unit) := do
  let r ← withTransaction env (lifting destination) (exporting env query)
  return within (.parquet destination) r

end Definitions

/-! ### Steps that touch no file -/

section Keeps

variable {γ : Type} {g : Handled World → γ} (env : Surroundings E destination complete)

theorem Keeps.releasing {release : Op E Unit} {c : Op E (Except Cause α)} (hr : Keeps g release)
    (hc : Keeps g c) : Keeps g (releasing release c) := by
  intro x s hs
  have h := hc x s hs
  unfold Parquet.releasing
  match hcs : c s with
  | (.ok (.ok a), t) =>
    rw [hcs] at h
    exact h
  | (.ok (.error e), t) =>
    rw [hcs] at h
    exact (hr.bind fun _ => .pure) x t h
  | (.error y, t) =>
    rw [hcs] at h
    exact (Keeps.raise.protect fun _ => hr) x t h

/-- A copy opens its statement, and checks the types of it. -/
theorem keeps_opening (hg : Steady g) : Keeps g (withAdmission env (releasing (ask env.cleanup)
    (andOk (engine env) fun _ => checkpoint env))) :=
  .withAdmission env hg (.releasing (.ask hg) (.andOk (.ask hg) fun _ => .ask hg))

theorem keeps_selectSchema (hg : Steady g) : Keeps g (selectSchema env) :=
  .withAdmission env hg (.andOk (.ask hg) fun _ => .andOk (.ask hg) fun _ => .pure)

theorem keeps_closeResult (hg : Steady g) : Keeps g (closeResult env) :=
  .andOk (.ask hg) fun _ => .bind (.ask hg) fun _ => .pure

theorem keeps_typeCheck (query : String) (hg : Steady g)
    (hscope : ∀ {work : Op E Result}, Keeps g work →
      Keeps g (scope (lifting destination) work (ask env.cleanup))) :
    Keeps g (typeCheck env query) :=
  .andOk .pure fun _ => .andOk (keeps_opening env hg) fun _ =>
    hscope (.andOk (keeps_selectSchema env hg) fun _ => .pure)

theorem keeps_remove_denied (temporary : String) :
    Keeps Handled.denied (remove temporary : Op E Unit) := by
  refine .of_eq fun s => ?_
  unfold remove
  split <;> rfl

theorem keeps_reserveTemporary_denied : Keeps Handled.denied (reserveTemporary env) := by
  have htemp : Keeps Handled.denied (tempFile env) := by
    refine .of_eq fun s => ?_
    unfold tempFile
    split <;> rfl
  refine .withAdmission env steady_denied (.bind (.ask steady_denied) fun admitted => ?_)
  match admitted with
  | false => exact .pure
  | true => exact htemp

theorem keeps_publishing_denied (query temporary : String) :
    Keeps Handled.denied (publishing env query temporary) := by
  have hcopy : Keeps Handled.denied (copyTo env query temporary) :=
    .andOk .pure fun _ => .andOk (keeps_opening env steady_denied) fun _ =>
      keeps_scope_denied (.ask steady_denied)
  have hadmitted : Keeps Handled.denied (publishAdmitted env temporary) := .of_eq fun _ => rfl
  refine .andOk hcopy fun _ => .andOk (.ask steady_denied) fun _ =>
    .withAdmission env steady_denied (.bind (.ask steady_denied) fun _ =>
      .bind hadmitted fun r => ?_)
  match r with
  | .done => exact .ask steady_denied
  | .cancelled | .exists | .failed _ => exact .pure

theorem keeps_exporting_denied (query : String) : Keeps Handled.denied (exporting env query) :=
  .andOk (keeps_typeCheck env query steady_denied fun _ => keeps_scope_denied (.ask steady_denied))
    fun _ => .andOk (keeps_reserveTemporary_denied env) fun temporary =>
      keeps_scope_denied (keeps_remove_denied temporary)

end Keeps

/-! ### How far an export has come -/

/-- The failure is not to be taken for another. -/
def Refused (r : Except (Exn E) Result) : Prop :=
  (∃ x, x ≠ .effectDenied ∧ r = .error x) ∨ r = .ok (.error .destinationExists)

/-- The files with the temporary file `t`, from the files `d` on. -/
def Disk.draft (d : Disk) (t : String) (content : Option Content) (events : List Event) : Disk :=
  ⟨Function.update d.files t content, d.log ++ .reserved t :: events⟩

/-- **How far the export has come** with the temporary file `t`, from the files `d` on, and what its
outcome may be: the file is a draft, or complete, or its publication is admitted, or it is
published. -/
inductive Stage (env : Surroundings E destination complete) (d : Disk) (t : String) :
    Except (Exn E) Result → Disk → Prop
  | draft {content r} : r ≠ .ok (.ok ()) → Stage env d t r (d.draft t content [])
  | copied {r} : r ≠ .ok (.ok ()) → Stage env d t r (d.draft t (some complete) [.copied t])
  | admitted {n r} : env.latched n = false → r ≠ .ok (.ok ()) →
      (d.files destination ≠ none → Refused r) →
      Stage env d t r (d.draft t (some complete) [.copied t, .admitted n])
  | linked {n r} : env.latched n = false → d.files destination = none →
      Stage env d t r
        ⟨Function.update (Function.update d.files t (some complete)) destination (some complete),
          d.log ++ [.reserved t, .copied t, .admitted n, .linked t]⟩

/-- `r'` is no better than `r`. -/
def Follows (r r' : Except (Exn E) Result) : Prop :=
  (r' = .ok (.ok ()) → r = .ok (.ok ())) ∧ (Refused r → Refused r')

theorem Stage.follows {env : Surroundings E destination complete} {d x : Disk} {t : String}
    {r r' : Except (Exn E) Result} (h : Stage env d t r x) (hr : Follows r r') :
    Stage env d t r' x := by
  cases h with
  | draft hno => exact .draft fun h => hno (hr.1 h)
  | copied hno => exact .copied fun h => hno (hr.1 h)
  | admitted hn hno hex =>
    exact .admitted hn (fun h => hno (hr.1 h)) fun hd => hr.2 (hex hd)
  | linked hn hd => exact .linked hn hd

/-- A scope ends no better than its work. -/
theorem follows_scope {l : Lifting Cause} {work : Op E Result} {cleanup : Op E Unit}
    (hw : Keeps Handled.denied work) (s : Handled World) :
    Follows (work { s with denied := false }).1 (scope l work cleanup s).1 := by
  refine ⟨fun h => ?_, fun h => ?_⟩
  · rcases scope_fst h with h | ⟨c, -, h⟩
    · obtain ⟨t, ht, -, -⟩ := withoutEscapingEffects_ok h
      rw [ht]
    · cases h
  · have hdenied : (work { s with denied := false }).2.denied = false := hw.eq _
    rcases hrun : work { s with denied := false } with ⟨r, t⟩
    rw [hrun] at h hdenied
    rcases h with ⟨x, hx, hr⟩ | hr
    · -- the exception passes the handler, and is at most paired with that of the cleanup
      obtain ⟨u, hu⟩ : ∃ u, withoutEscapingEffects work s = (.error x, u) := by
        unfold withoutEscapingEffects
        rw [hrun]
        cases hr
        cases x with
        | effectDenied => exact absurd rfl hx
        | raised _ | sysBreak | both _ _ | cleanup _ _ => exact ⟨_, rfl⟩
      unfold scope Comp.protect
      rw [Comp.bind_error hu]
      dsimp only
      split
      · exact .inl ⟨x, hx, rfl⟩
      · exact .inl ⟨_, (fun h => by cases h), rfl⟩
    · have hu : withoutEscapingEffects work s =
          (.ok (.ok (.error .destinationExists)), { t with denied := s.denied }) := by
        unfold withoutEscapingEffects
        rw [hrun]
        cases hr
        have hd : t.denied = false := hdenied
        simp [hd]
      unfold scope Comp.protect
      rw [Comp.bind_ok hu]
      simp only [pure, Comp.ret, Comp.andThen, Comp.catching]
      rcases completeCleanup cleanup { t with denied := s.denied } with ⟨_ | _, v⟩
      · exact .inl ⟨_, (fun h => by cases h), rfl⟩
      · exact .inr rfl

section Copy

variable {d : Disk} {t : String}

/-- What a copy leaves: a draft, and no value, or the complete file. -/
inductive Copied (complete : Content) (d : Disk) (t : String) :
    Except (Exn E) Result → Disk → Prop
  | draft {content r} : (∀ v, r ≠ .ok (.ok v)) → Copied complete d t r (d.draft t content [])
  | complete {r} : Copied complete d t r (d.draft t (some complete) [.copied t])

theorem Copied.weaken {r r' : Except (Exn E) Result} {x : Disk} (h : Copied complete d t r x)
    (hr : ∀ v, r' ≠ .ok (.ok v)) : Copied complete d t r' x := by
  cases h with
  | draft _ => exact .draft hr
  | complete => exact .complete

theorem Copied.eq_of_ok {x : Disk}
    (h : Copied complete d t (.ok (.ok ()) : Except (Exn E) Result) x) :
    x = d.draft t (some complete) [.copied t] := by
  cases h with
  | draft hr => exact absurd rfl (hr ())
  | complete => rfl

theorem Copied.stage {env : Surroundings E destination complete} {r : Except (Exn E) Result}
    {x : Disk} (h : Copied complete d t r x) (hr : ∀ v, r ≠ .ok (.ok v)) : Stage env d t r x := by
  cases h with
  | draft _ => exact .draft (hr ())
  | complete => exact .copied (hr ())

/-- A release after a failure keeps what holds of the files also when there is no value. -/
theorem triple_releasing {P : Handled World → Prop}
    {Q : Except (Exn E) (Except Cause α) → Disk → Prop} {release : Op E Unit}
    {c : Op E (Except Cause α)}
    (hQ : ∀ {r r' x}, Q r x → (∀ v, r' ≠ .ok (.ok v)) → Q r' x) (hr : Keeps disk release)
    (hc : Triple P c fun r s => Q r (disk s)) :
    Triple P (releasing release c) fun r s => Q r (disk s) := by
  intro s hs
  have h := hc s hs
  -- the release keeps the files, and the failure stays one
  have hfail : ∀ {q : Op E (Except Cause α)} {r u}, Keeps disk q → (∀ v, (q u).1 ≠ .ok (.ok v)) →
      Q r (disk u) → Q (q u).1 (disk (q u).2) := by
    intro q r u hq hv hu
    rw [hq.eq u]
    exact hQ hu hv
  unfold releasing
  match hcs : c s with
  | (.ok (.ok a), u) =>
    rw [hcs] at h
    exact h
  | (.ok (.error e), u) =>
    rw [hcs] at h
    refine hfail (hr.bind fun _ => .pure) (fun v hv => ?_) h
    rcases hru : release u with ⟨_ | _, w⟩
    · rw [Comp.bind_error hru] at hv
      cases hv
    · rw [Comp.bind_ok hru] at hv
      cases hv
  | (.error y, u) =>
    rw [hcs] at h
    refine hfail (Keeps.raise.protect fun _ => hr) (fun v hv => ?_) h
    unfold Comp.protect Comp.raise at hv
    dsimp only at hv
    split at hv <;> cases hv

/-- A scope whose cleanup touches no file. -/
theorem triple_scope_steady {l : Lifting Cause} {work : Op E Result} {cleanup : Op E Unit}
    {Q : Except (Exn E) Result → Disk → Prop}
    (hQ : ∀ {r r' x}, Q r x → (∀ v, r' ≠ .ok (.ok v)) → Q r' x) (hc : Keeps disk cleanup)
    (hw : Triple (disk · = d) work fun r s => Q r (disk s)) :
    Triple (disk · = d) (scope l work cleanup) fun r s => Q r (disk s) := by
  intro s hs
  have h : Q (work { s with denied := false }).1 (disk (work { s with denied := false }).2) :=
    hw { s with denied := false } hs
  have hdisk : disk (scope l work cleanup s).2 = disk (work { s with denied := false }).2 := by
    rw [scope_snd, hc.completeCleanup.eq, disk_withoutEscapingEffects]
  rw [← hdisk] at h
  by_cases hr : (scope l work cleanup s).1 = .ok (.ok ())
  · rcases scope_fst hr with hwork | ⟨c, -, hc⟩
    · obtain ⟨u, hu, -, -⟩ := withoutEscapingEffects_ok hwork
      rw [hu] at h
      rw [hr]
      exact h
    · cases hc
  · exact hQ h fun v => hr

variable (env : Surroundings E destination complete)

theorem copied_copyNative {content : Option Content} :
    Triple (disk · = d.draft t content []) (copyNative env t)
      fun r s => Copied complete d t r (disk s) := by
  intro s hs
  have hfiles : ∀ content', Function.update s.inner.disk.files t content' =
      Function.update d.files t content' := fun content' => by
    rw [show s.inner.disk = _ from hs]
    exact Function.update_idem ..
  have hlog : s.inner.disk.log = d.log ++ [.reserved t] := by
    rw [show s.inner.disk = _ from hs]
    rfl
  unfold copyNative disk
  have hcopied := env.copied s.inner.time
  generalize env.copy s.inner.time = answer at hcopied
  obtain ⟨written, r⟩ := answer
  dsimp only at hcopied ⊢
  rw [hfiles]
  match r with
  -- only an answer without an error says that the file is complete
  | .ok (.ok ()) =>
    rw [hcopied rfl, hlog, List.append_assoc]
    exact .complete
  | .ok (.error c) =>
    rw [hlog]
    exact .draft fun _ hv => by cases hv
  | .error x =>
    rw [hlog]
    exact .draft fun _ hv => by cases hv

theorem copied_executeCopy {content : Option Content} :
    Triple (disk · = d.draft t content []) (executeCopy env t)
      fun r s => Copied complete d t r (disk s) := by
  have hdraft : ∀ (r : Except (Exn E) Result) (s : Handled World), disk s = d.draft t content [] →
      (∀ v, r ≠ .ok (.ok v)) → Copied complete d t r (disk s) :=
    fun _ _ hs hr => hs ▸ .draft hr
  have hcomplete : ∀ (r : Except (Exn E) Result) (s : Handled World),
      disk s = d.draft t (some complete) [.copied t] → Copied complete d t r (disk s) :=
    fun _ _ hs => hs ▸ .complete
  refine triple_steady (Keeps.ask steady_disk) hdraft fun _ =>
    triple_steady (Keeps.ask steady_disk) hdraft fun _ =>
      triple_releasing Copied.weaken (Keeps.ask steady_disk) <|
        triple_steady (Keeps.ask steady_disk) hdraft fun _ =>
          triple_steady (Keeps.ask steady_disk) hdraft fun _ => ?_
  refine triple_andOk (copied_copyNative env) (fun _ _ h => h) (fun _ _ h => h) fun _ => ?_
  have hrest : Keeps disk (andOk (checkpoint env) fun _ => andOk (engine env) fun _ =>
      checkpoint env) :=
    .andOk (.ask steady_disk) fun _ => .andOk (.ask steady_disk) fun _ => .ask steady_disk
  exact fun s hs => hcomplete _ _ ((hrest.eq s).trans hs.eq_of_ok)

theorem copied_copyTo {query : String} {content : Option Content} :
    Triple (disk · = d.draft t content []) (copyTo env query t)
      fun r s => Copied complete d t r (disk s) := by
  have hdraft : ∀ (r : Except (Exn E) Result) (s : Handled World), disk s = d.draft t content [] →
      (∀ v, r ≠ .ok (.ok v)) → Copied complete d t r (disk s) :=
    fun _ _ hs hr => hs ▸ .draft hr
  have hbind : Keeps disk (withAdmission env (andOk (engine env) fun _ => checkpoint env)) :=
    .withAdmission env steady_disk (.andOk (.ask steady_disk) fun _ => .ask steady_disk)
  refine triple_steady .pure hdraft fun _ => triple_steady (keeps_opening env steady_disk) hdraft
    fun _ => triple_scope_steady Copied.weaken (Keeps.ask steady_disk) <|
      triple_steady hbind hdraft fun _ => ?_
  refine triple_andOk (copied_executeCopy env) (fun _ _ h => h) (fun _ _ h => h) fun _ => ?_
  exact fun s hs => ((keeps_closeResult env steady_disk).eq s).trans hs.eq_of_ok ▸ .complete

end Copy

section Publish

variable {d : Disk} {t : String} (env : Surroundings E destination complete)

/-- What each outcome of the native publication leaves. -/
inductive Linked (d : Disk) (t : String) : Published → Disk → Prop
  | cancelled : Linked d t .cancelled (d.draft t (some complete) [.copied t])
  | done {n} : env.latched n = false → d.files destination = none →
      Linked d t .done
        ⟨Function.update (Function.update d.files t (some complete)) destination (some complete),
          d.log ++ [.reserved t, .copied t, .admitted n, .linked t]⟩
  | exists {n} : env.latched n = false →
      Linked d t .exists (d.draft t (some complete) [.copied t, .admitted n])
  | failed {n c} : env.latched n = false → d.files destination = none →
      Linked d t (.failed c) (d.draft t (some complete) [.copied t, .admitted n])

variable {env}

/-- The link is made when the publication is done, and a refusal is reported as one. -/
theorem Linked.stage {p : Published} {x : Disk} {r : Except (Exn E) Result}
    (h : Linked env d t p x) (hr : p ≠ .done → r ≠ .ok (.ok ())) (he : p = .exists → Refused r) :
    Stage env d t r x := by
  cases h with
  | cancelled => exact .copied (hr fun h => by cases h)
  | done hn hd => exact .linked hn hd
  | «exists» hn => exact .admitted hn (hr fun h => by cases h) fun _ => he rfl
  | failed hn hd => exact .admitted hn (hr fun h => by cases h) fun h => absurd hd h

variable (env)

theorem linked_publishAdmitted (ht : t ≠ destination) :
    Triple (disk · = d.draft t (some complete) [.copied t]) (publishAdmitted env t)
      fun r s => ∃ p, Linked env d t p (disk s) ∧
        (r = .ok p ∨ ∃ x, x ≠ .effectDenied ∧ r = .error x) := by
  intro s hs
  have hdisk : s.inner.disk = d.draft t (some complete) [.copied t] := hs
  have hdestination : s.inner.disk.files destination = d.files destination := by
    rw [hdisk]
    exact Function.update_of_ne ht.symm ..
  have htemporary : s.inner.disk.files t = some complete := by
    rw [hdisk]
    exact Function.update_self ..
  have hlog : ∀ events, s.inner.disk.log ++ events =
      d.log ++ .reserved t :: .copied t :: events := fun events => by
    rw [hdisk]
    exact List.append_assoc ..
  -- an interrupt at the end of the call does not undo the link
  have hanswer : ∀ p : Published, (env.interrupt s.inner.time).map (fun _ => p) = .ok p ∨
      ∃ x, x ≠ .effectDenied ∧ (env.interrupt s.inner.time).map (fun _ => p) = .error x := by
    intro p
    have hquiet := env.quiet s.inner.time
    generalize env.interrupt s.inner.time = answer at hquiet
    rcases answer with x | _
    · exact .inr ⟨x, fun h => hquiet (congrArg Except.error h), rfl⟩
    · exact .inl rfl
  unfold publishAdmitted
  dsimp only
  refine ⟨_, ?_, hanswer _⟩
  unfold disk
  dsimp only
  -- the latch is looked at once more under the admission
  cases hlatch : env.latched s.inner.time with
  | true =>
    simp only [if_true, hdisk]
    exact .cancelled
  | false =>
    simp only [Bool.false_eq_true, if_false, hdestination, htemporary, hlog]
    -- the link fails if the destination exists
    rcases hd : d.files destination with _ | content
    · rcases env.link s.inner.time with c | _
      · rw [hdisk]
        exact .failed hlatch hd
      · simp only [hdisk, List.append_assoc]
        exact .done hlatch hd
    · rw [hdisk]
      exact .exists hlatch

theorem stage_publish (ht : t ≠ destination) :
    Triple (disk · = d.draft t (some complete) [.copied t]) (publish env t)
      fun r s => Stage env d t r (disk s) := by
  have hcopied : ∀ (r : Except (Exn E) Result) (s : Handled World),
      disk s = d.draft t (some complete) [.copied t] → (∀ v, r ≠ .ok (.ok v)) →
        Stage env d t r (disk s) := fun _ _ hs hr => hs ▸ .copied (hr ())
  -- without a link the temporary file is all there is
  have hstop : ∀ {p : Published} {c : Cause}, p ≠ .done → (p = .exists → c = .destinationExists) →
      Triple (fun s => Linked env d t p (disk s)) (return .error c)
        fun r s => Stage env d t r (disk s) := fun hp hc =>
    Triple.pure fun s hs => hs.stage (fun _ h => by cases h) fun h => .inr (hc h ▸ rfl)
  refine triple_steady (Keeps.ask steady_disk) hcopied fun _ =>
    triple_steady (Keeps.ask steady_disk) hcopied fun _ =>
      (Keeps.ask steady_disk _).bind (fun x s hs => hcopied _ s hs fun _ h => by cases h) fun _ =>
        (linked_publishAdmitted env ht).bind ?_ fun p => ?_
  · rintro x s ⟨p, hp, h | ⟨y, hy, h⟩⟩
    · cases h
    · cases h
      exact hp.stage (fun _ h => by cases h) fun _ => .inl ⟨x, hy, rfl⟩
  · have hafter : Triple (fun s => Linked env d t p (disk s)) (match p with
        | .cancelled => return .error .cancelled
        -- after the link only the last checkpoint can fail
        | .done => checkpoint env
        | .exists => return .error .destinationExists
        | .failed c => return .error c) fun r s => Stage env d t r (disk s) := by
      match p with
      | .cancelled => exact hstop (fun h => by cases h) fun h => by cases h
      | .exists => exact hstop (fun h => by cases h) fun _ => rfl
      | .failed c => exact hstop (fun h => by cases h) fun h => by cases h
      | .done =>
        have hcheckpoint : Keeps disk (checkpoint env) := .ask steady_disk
        intro s hs
        exact hcheckpoint.eq s ▸ hs.stage (fun h => absurd rfl h) fun h => by cases h
    refine hafter.conseq (fun s hs => ?_) fun _ _ h => h
    obtain ⟨p', hp, h | ⟨y, -, h⟩⟩ := hs
    · cases h
      exact hp
    · cases h

/-- **Copying and publishing** a reserved file brings the export to some stage. -/
theorem stage_publishing (query : String) {content : Option Content} (ht : t ≠ destination) :
    Triple (disk · = d.draft t content []) (publishing env query t)
      fun r s => Stage env d t r (disk s) := by
  refine triple_andOk (copied_copyTo env) (fun x s hs => hs.stage fun _ h => by cases h)
    (fun e s hs => hs.stage fun _ h => by cases h) fun _ => ?_
  have hpublish : Triple (disk · = d.draft t (some complete) [.copied t])
      (andOk (checkpoint env) fun _ => publish env t) fun r s => Stage env d t r (disk s) :=
    triple_steady (Keeps.ask steady_disk) (fun _ _ hs hr => hs ▸ .copied (hr ()))
      fun _ => stage_publish env ht
  exact hpublish.conseq (fun s hs => hs.eq_of_ok) fun _ _ h => h

end Publish

section Export

variable {d : Disk} (env : Surroundings E destination complete)

/-- What the callback of an export leaves: nothing, or a stage without its temporary file. -/
def Exported (d : Disk) (r : Except (Exn E) Result) (x : Disk) : Prop :=
  (x = d ∧ ∀ v, r ≠ .ok (.ok v)) ∨
    ∃ t y, d.files t = none ∧ t ≠ destination ∧ Stage env d t r y ∧
      x = ⟨Function.update y.files t none, y.log⟩

theorem disk_remove (temporary : String) (s : Handled World) :
    disk (completeCleanup (remove temporary : Op E Unit) s).2 =
      ⟨Function.update (disk s).files temporary none, (disk s).log⟩ := by
  unfold completeCleanup Comp.catching remove disk
  cases hcut : s.inner.cut with
  | false => rfl
  | true => rfl

theorem exported_reserved {query t : String} (hfree : d.files t = none) (ht : t ≠ destination) :
    Triple (disk · = d.draft t (some []) [])
      (scope (lifting destination) (publishing env query t) (remove t))
      fun r s => Exported env d r (disk s) := by
  intro s hs
  have hstage := stage_publishing env query ht { s with denied := false } hs
  refine .inr ⟨t, _, hfree, ht,
    hstage.follows (follows_scope (keeps_publishing_denied env query t) s), ?_⟩
  rw [scope_snd, disk_remove, disk_withoutEscapingEffects]

/-- What a reservation leaves: a new empty file that is not the destination, or nothing. -/
def Reserved (destination : String) (d : Disk) (r : Except (Exn E) (Except Cause String))
    (x : Disk) : Prop :=
  (∃ t, r = .ok (.ok t) ∧ d.files t = none ∧ t ≠ destination ∧ x = d.draft t (some []) []) ∨
    x = d ∧ ∀ t, r ≠ .ok (.ok t)

theorem reserved_reserveTemporary :
    Triple (disk · = d) (reserveTemporary env) fun r s => Reserved destination d r (disk s) := by
  have hnone : ∀ (r : Except (Exn E) (Except Cause String)) (s : Handled World), disk s = d →
      (∀ t, r ≠ .ok (.ok t)) → Reserved destination d r (disk s) := fun _ _ hs hr => .inr ⟨hs, hr⟩
  have htemp : Triple (disk · = d) (tempFile env) fun r s =>
      Reserved destination d r (disk s) := by
    rintro s rfl
    unfold tempFile
    rcases ht : env.temporary s.inner.time s.inner.disk.files with c | t
    · exact .inr ⟨rfl, fun _ h => by cases h⟩
    · obtain ⟨hfree, hne⟩ := env.fresh _ _ _ ht
      exact .inl ⟨t, rfl, hfree, hne, rfl⟩
  refine triple_steady (Keeps.ask steady_disk) hnone fun _ =>
    triple_steady (Keeps.ask steady_disk) hnone fun _ =>
      (Keeps.ask steady_disk _).bind (fun _ s hs => hnone _ s hs fun _ h => by cases h)
        fun admitted => ?_
  match admitted with
  | false => exact Triple.pure fun s hs => hnone _ s hs fun _ h => by cases h
  | true => exact htemp

theorem exported_exporting (query : String) :
    Triple (disk · = d) (exporting env query) fun r s => Exported env d r (disk s) := by
  have hnone : ∀ (r : Except (Exn E) Result) (s : Handled World), disk s = d →
      (∀ v, r ≠ .ok (.ok v)) → Exported env d r (disk s) := fun _ _ hs hr => .inl ⟨hs, hr⟩
  have hcheck : Keeps disk (typeCheck env query) :=
    keeps_typeCheck env query steady_disk fun hw => keeps_scope_disk hw (.ask steady_disk)
  have hfail : ∀ {r : Except (Exn E) (Except Cause String)} {s : Handled World},
      Reserved destination d r (disk s) → (∀ t, r ≠ .ok (.ok t)) → disk s = d := by
    rintro r s (⟨t, rfl, -⟩ | ⟨hs, -⟩) hr
    · exact absurd rfl (hr t)
    · exact hs
  refine triple_steady hcheck hnone fun _ => triple_andOk (reserved_reserveTemporary env)
    (fun x s hs => hnone _ s (hfail hs fun _ h => by cases h) fun _ h => by cases h)
    (fun c s hs => hnone _ s (hfail hs fun _ h => by cases h) fun _ h => by cases h) fun t => ?_
  rintro s (⟨t', ht, hfree, hne, hs⟩ | ⟨-, hr⟩)
  · cases ht
    exact exported_reserved env hfree hne s hs
  · exact absurd rfl (hr t)

theorem bracket_export (query : String) :
    Triple (disk · = d) (withTransaction env (lifting destination) (exporting env query))
      (Bracket (Rolls (lifting destination)) (exporting env query) d) :=
  bracket_withTransaction env (keeps_exporting_denied env query)

/-- What an export may leave of the files `d`, with the steps `events` it has taken. -/
structure NoPartialOutput (d x : Disk) (events : List Event) : Prop where
  others : ∀ p, p ≠ destination → x.files p = d.files p
  removed : ∀ t, .reserved t ∈ events → x.files t = none
  existing : d.files destination ≠ none →
    x.files destination = d.files destination ∧ ∀ t, .linked t ∉ events
  published : d.files destination = none →
    (x.files destination = none ∧ ∀ t, .linked t ∉ events) ∨
      x.files destination = some complete ∧ ∃ t n, env.latched n = false ∧
        events = [.reserved t, .copied t, .admitted n, .linked t]

theorem noPartialOutput_draft {t : String} {content : Option Content} {events : List Event}
    (hfree : d.files t = none)
    (hevents : ∀ e ∈ events, (∀ t, e ≠ .reserved t) ∧ ∀ t, e ≠ .linked t) :
    NoPartialOutput env d ⟨Function.update (d.draft t content events).files t none,
      (d.draft t content events).log⟩ (.reserved t :: events) := by
  have hlinked : ∀ t', Event.linked t' ∉ Event.reserved t :: events := by
    intro t' h
    rcases List.mem_cons.mp h with h | h
    · cases h
    · exact (hevents _ h).2 t' rfl
  have hfiles : ∀ p, Function.update (d.draft t content events).files t none p = d.files p := by
    intro p
    by_cases hp : p = t
    · rw [hp, Function.update_self, hfree]
    · rw [Function.update_of_ne hp]
      exact Function.update_of_ne hp ..
  refine ⟨fun p _ => hfiles p, fun t' h => ?_, fun _ => ⟨hfiles _, hlinked⟩,
    fun hd => .inl ⟨(hfiles _).trans hd, hlinked⟩⟩
  rcases List.mem_cons.mp h with h | h
  · cases h
    exact (hfiles t).trans hfree
  · exact absurd rfl ((hevents _ h).1 t')

theorem noPartialOutput_linked {t : String} {n : ℕ} {log : List Event} (hfree : d.files t = none)
    (ht : t ≠ destination) (hn : env.latched n = false) (hd : d.files destination = none) :
    NoPartialOutput env d ⟨Function.update (Function.update (Function.update d.files t
      (some complete)) destination (some complete)) t none, log⟩
      [.reserved t, .copied t, .admitted n, .linked t] := by
  have hdestination : Function.update (Function.update (Function.update d.files t
      (some complete)) destination (some complete)) t none destination = some complete := by
    rw [Function.update_of_ne ht.symm, Function.update_self]
  refine ⟨fun p hp => ?_, fun t' h => ?_, fun h => absurd hd h,
    fun _ => .inr ⟨hdestination, t, n, hn, rfl⟩⟩
  · by_cases hpt : p = t
    · rw [hpt, hfree]
      exact Function.update_self ..
    · dsimp only
      rw [Function.update_of_ne hpt, Function.update_of_ne hp, Function.update_of_ne hpt]
  · simp only [List.mem_cons, Event.reserved.injEq, reduceCtorEq, List.not_mem_nil, or_false] at h
    rw [h]
    exact Function.update_self ..

/-- What the callback of an export leaves, with its outcome. -/
theorem Exported.spec {r : Except (Exn E) Result} {x : Disk} (h : Exported env d r x) :
    ∃ events, x.log = d.log ++ events ∧ NoPartialOutput env d x events ∧
      (r = .ok (.ok ()) → d.files destination = none ∧ x.files destination = some complete) ∧
      ((∃ n, .admitted n ∈ events) → d.files destination ≠ none → Refused r) := by
  rcases h with ⟨rfl, hr⟩ | ⟨t, y, hfree, ht, hstage, rfl⟩
  · exact ⟨[], (List.append_nil _).symm, ⟨fun _ _ => rfl, fun _ h => absurd h List.not_mem_nil,
      fun _ => ⟨rfl, fun _ => List.not_mem_nil⟩, fun hd => .inl ⟨hd, fun _ => List.not_mem_nil⟩⟩,
      fun h => absurd h (hr ()), fun ⟨_, h⟩ => absurd h List.not_mem_nil⟩
  · cases hstage with
    | draft hr =>
      exact ⟨_, rfl, noPartialOutput_draft env hfree (by simp), fun h => absurd h hr,
        fun ⟨n, h⟩ => by simp at h⟩
    | copied hr =>
      exact ⟨_, rfl, noPartialOutput_draft env hfree (by simp), fun h => absurd h hr,
        fun ⟨n, h⟩ => by simp at h⟩
    | admitted hn hr hexists =>
      exact ⟨_, rfl, noPartialOutput_draft env hfree (by simp), fun h => absurd h hr,
        fun _ => hexists⟩
    | linked hn hd =>
      refine ⟨_, rfl, noPartialOutput_linked env hfree ht hn hd, fun _ => ⟨hd, ?_⟩,
        fun _ h => absurd hd h⟩
      dsimp only
      rw [Function.update_of_ne ht.symm, Function.update_self]

theorem exportQuery_eq (query : String) (s : Handled World) :
    exportQuery env query s =
      ((withTransaction env (lifting destination) (exporting env query) s).1.map
        (within (.parquet destination)),
        (withTransaction env (lifting destination) (exporting env query) s).2) := by
  unfold exportQuery
  rcases hrun : withTransaction env (lifting destination) (exporting env query) s with ⟨_ | r, t⟩
  · exact Comp.bind_error hrun
  · exact Comp.bind_ok hrun

/-- **An export leaves no partial output**, however it ends. The files other than the destination
are as before, so that a reserved temporary file is removed. A destination that existed is as
before, the export does not succeed, and once its publication is admitted it reports that the
destination exists, alone or with the failure of the rollback, unless it raises. A destination that
did not exist is made by the one link after the copy and after the admission has found the latch
unset, and holds the complete file; an export that succeeds has made it. -/
theorem export_no_partial_output (query : String) (s : Handled World) :
    ∃ events, (disk (exportQuery env query s).2).log = (disk s).log ++ events ∧
      NoPartialOutput env (disk s) (disk (exportQuery env query s).2) events ∧
      ((exportQuery env query s).1 = .ok (.ok ()) → (disk s).files destination = none ∧
        (disk (exportQuery env query s).2).files destination = some complete) ∧
      ((∃ n, .admitted n ∈ events) → (disk s).files destination ≠ none →
        (∃ x, (exportQuery env query s).1 = .error x) ∨
          ∃ c, Rolls (lifting destination) .destinationExists c ∧
            (exportQuery env query s).1 = .ok (.error ⟨.parquet destination, c⟩)) := by
  have hbracket := bracket_export (d := disk s) env query s rfl
  rw [exportQuery_eq]
  generalize withTransaction env (lifting destination) (exporting env query) s = outcome at hbracket
  obtain ⟨r, t⟩ := outcome
  dsimp only at hbracket ⊢
  rcases hbracket with ⟨hsame, hno⟩ | ⟨s', hs', hleft, hvalue, hreport, hraise⟩
  · -- the callback has not run
    obtain ⟨events, hlog, hfiles, -, -⟩ := Exported.spec env
      (.inl ⟨hsame, fun _ => hno _⟩ : Exported env (disk s) (r : Except (Exn E) Result) (disk t))
    have hevents : events = [] := by
      rw [hsame] at hlog
      exact List.self_eq_append_right.mp hlog
    refine ⟨events, hlog, hfiles, fun h => ?_, fun ⟨n, h⟩ => ?_⟩
    · rcases r with x | c | v
      · cases h
      · cases h
      · exact absurd rfl (hno v)
    · rw [hevents] at h
      exact absurd h List.not_mem_nil
  -- the callback has run: its files are left, and its answer is at best the answer
  · have hexported : Exported env (disk s) (exporting env query s').1
        (disk (exporting env query s').2) := exported_exporting env query s' hs'
    rw [← hleft] at hexported
    obtain ⟨events, hlog, hfiles, hok, hrefused⟩ := Exported.spec env hexported
    refine ⟨events, hlog, hfiles, fun h => ?_, fun hadmitted hd => ?_⟩
    · rcases r with x | c | v
      · cases h
      · cases h
      · exact hok (hvalue v rfl)
    · have hrefusal := hrefused hadmitted hd
      rcases r with x | c | v
      · exact .inl ⟨x, rfl⟩
      · rcases hrefusal with ⟨x, hx, hr⟩ | hr
        · obtain ⟨y, hy⟩ := hraise x hr hx
          cases hy
        · exact .inr ⟨c, hreport _ _ hr rfl, rfl⟩
      · rw [hvalue v rfl] at hrefusal
        rcases hrefusal with ⟨x, -, hr⟩ | hr <;> cases hr

/-- Surroundings in which nothing fails. -/
def calm : Surroundings Empty "out.parquet" [80, 65, 82, 49] where
  answer _ := .ok (.ok ())
  checkpoint _ := .ok ()
  cleanup _ := .ok ()
  latched _ := false
  columns _ := .ok (.ok [Decode.Scalar.nativeId .int32])
  temporary _ files := if files ".duckdb-parquet-0.parquet" = none
    then .ok ".duckdb-parquet-0.parquet" else .error (.native "File exists")
  copy _ := (some [80, 65, 82, 49], .ok (.ok ()))
  link _ := .ok ()
  interrupt _ := .ok ()
  fresh n files p h := by
    split at h
    · rename_i hfree
      cases h
      exact ⟨hfree, by decide⟩
    · cases h
  quiet _ h := by cases h
  copied _ _ := rfl

-- the temporary file is removed although the first removal is interrupted
example : let x := (exportQuery calm "SELECT 1" ⟨false, ⟨⟨fun _ => none, []⟩, 0, false, true⟩⟩).2
    x.inner.disk.files ".duckdb-parquet-0.parquet" = none ∧
      x.inner.disk.files "out.parquet" = some [80, 65, 82, 49] ∧ x.inner.disk.log.length = 4 := by
  decide

end Export

end DuckdbMl.Parquet
