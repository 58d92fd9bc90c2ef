import DuckdbMl.AsyncPool.Leases

/-!
# Runs of the pool

## Main definitions

* `Recorded p`: the state of the pool fits its log, and the log is legal

## Main results

* `never_fails`: in no run is a partial operation reached outside its domain
* `placed_once`: a request is in one place, and finished once
* `dispatched_in_order`: requests are dispatched in the order of their admission
* `connection_once`: connections are opened and closed once, and the database after all of them
* `isolated`: a connection serves a further request only after one that has succeeded
* `cancel_interrupts`: a request whose cancellation has been acknowledged does not succeed
-/

namespace DuckdbMl.AsyncPool

open Transition (Legal Guard)

variable {X V : Type} {p t : Pool X V} {G : Guard (Option (Pool X V)) (Label X V)}

/-- **The state fits the log, and the log is legal.** -/
structure Recorded (p : Pool X V) : Prop where
  requests : RequestsOk p
  connections : ConnectionsOk p
  leases : LeasesOk p
  legal : Legal (Allowed p.Succeeded) p.log

theorem Move.recorded (h : Move p t) (hp : Recorded p) : Recorded t := by
  obtain ⟨hc, b, h⟩ := h
  exact ⟨h.requestsOk hc hp.requests, h.connectionsOk hc hp.connections,
    h.leasesOk hc hp.requests hp.connections hp.leases,
    h.legal hc hp.requests hp.connections hp.leases hp.legal⟩

theorem Changes.recorded (h : Changes p t) (hp : Recorded p) : Recorded t := by
  induction h with
  | refl => exact hp
  | tail _ hmove ih => exact hmove.recorded ih

theorem mem_created {n capacity : ℕ} {e : Event} :
    e ∈ (created n capacity : Pool X V).log ↔ ∃ c < n, e = .opened c := by
  refine List.mem_map.trans ⟨?_, ?_⟩
  · rintro ⟨c, hc, rfl⟩
    exact ⟨c, List.mem_range.mp (List.mem_reverse.mp hc), rfl⟩
  · rintro ⟨c, hc, rfl⟩
    exact ⟨c, List.mem_reverse.mpr (List.mem_range.mpr hc), rfl⟩

theorem legal_opened (ok : ℕ → Prop) (n : ℕ) :
    Legal (Allowed ok) ((List.range n).reverse.map .opened) := by
  induction n with
  | zero => exact trivial
  | succ n ih =>
    rw [List.range_succ, List.reverse_append, List.map_append]
    refine ih.cons ⟨fun hmem => ?_, fun hmem => ?_⟩
    · obtain ⟨c, hc, he⟩ := List.mem_map.mp hmem
      cases he
      exact lt_irrefl _ (List.mem_range.mp (List.mem_reverse.mp hc))
    · obtain ⟨c, -, he⟩ := List.mem_map.mp hmem
      cases he

theorem recorded_created (n capacity : ℕ) : Recorded (created n capacity : Pool X V) := by
  have hopened : ∀ c, .opened c ∈ (created n capacity : Pool X V).log ↔ c < n := fun c =>
    mem_created.trans ⟨fun ⟨_, hk, he⟩ => by cases he; exact hk, fun hc => ⟨c, hc, rfl⟩⟩
  -- the log has the connections that are open, and nothing else
  have hnone : ∀ {e : Event}, (∀ c, e ≠ .opened c) → e ∉ (created n capacity : Pool X V).log :=
    fun hne he => by
      obtain ⟨c, -, he⟩ := mem_created.mp he
      exact hne c he
  refine ⟨⟨fun r => ?_, fun r c hd => ?_, fun r c hd => ?_, .nil⟩, ⟨hopened, fun c hc => ?_,
    fun i hi c hc => ?_, fun i hi j hj c hc hc' => ?_, fun i hi c hc => ?_, fun i hi c hc => ?_,
    fun c hc => .inr ⟨c, hc, rfl⟩, fun c hc => ?_, ?_, fun hd => ?_⟩,
    ⟨fun r c hd => ?_, nofun, nofun, fun i hi r c _ _ hd => ?_⟩, legal_opened _ n⟩
  · exact iff_of_false (hnone fun _ => Event.noConfusion) fun he => absurd he.1 (Nat.not_lt_zero r)
  · exact absurd hd (hnone fun _ => Event.noConfusion)
  · exact absurd hd (hnone fun _ => Event.noConfusion)
  · exact hc.elim (absurd · (hnone fun _ => Event.noConfusion))
      (absurd · (hnone fun _ => Event.noConfusion))
  · cases hc
    exact hi
  · cases hc
    exact (Option.some.inj hc').symm
  · exact iff_of_false (hnone fun _ => Event.noConfusion) (not_or.mpr ⟨nofun, nofun⟩)
  · exact iff_of_false (hnone fun _ => Event.noConfusion) nofun
  · exact absurd hc (hnone fun _ => Event.noConfusion)
  · exact iff_of_false (hnone fun _ => Event.noConfusion) (not_or.mpr ⟨nofun, nofun⟩)
  · exact absurd hd (hnone fun _ => Event.noConfusion)
  · exact absurd hd (hnone fun _ => Event.noConfusion)
  · exact absurd hd (hnone fun _ => Event.noConfusion)

/-- What holds of every pool that a run reaches. -/
structure Sound (p : Pool X V) : Prop where
  steady : Steady p
  recorded : Recorded p

theorem Sound.step (h : Sound p) {l : Label X V} {s : Option (Pool X V)}
    (hs : (system X V).step (some p) l = some s) :
    ∃ t, s = some t ∧ Sound t ∧ Changes p t ∧ (l.completes = true → Completes p t) := by
  obtain ⟨t, ht, hsteady, hchanges, hcompletes⟩ := handle_spec h.steady hs
  exact ⟨t, ht, ⟨hsteady, hchanges.recorded h.recorded⟩, hchanges, hcompletes⟩

/-- **Every pool that a run reaches is sound.** -/
theorem sound_of_reachable {s : Option (Pool X V)} (h : (system X V).Reachable G s) :
    ∃ p, s = some p ∧ Sound p := by
  refine h.induction (I := fun s => ∃ p, s = some p ∧ Sound p) ?_ ?_
  · rintro s ⟨n, capacity, -, rfl⟩
    exact ⟨_, rfl, steady_created n capacity, recorded_created n capacity⟩
  · rintro s l u ⟨p, rfl, hp⟩ - hs
    obtain ⟨t, ht, hsound, -⟩ := hp.step hs
    exact ⟨t, ht, hsound⟩

/-- The changes of a whole run. -/
theorem changes_of_run {s u : Option (Pool X V)} {ls : List (Label X V)} (h : Sound p)
    (hs : s = some p) (hrun : (system X V).Run G s ls u) :
    ∃ t, u = some t ∧ Sound t ∧ Changes p t := by
  induction ls generalizing s p with
  | nil => exact ⟨p, hrun ▸ hs, h, .refl⟩
  | cons l ls ih =>
    obtain ⟨-, v, hv, hrun⟩ := hrun
    rw [hs] at hv
    obtain ⟨q, hq, hsound, hchanges, -⟩ := h.step hv
    obtain ⟨t, ht, hsound, hrest⟩ := ih hsound hq hrun
    exact ⟨t, ht, hsound, hchanges.trans hrest⟩

/-- A request in a later pool of the run. -/
theorem Changes.request {r : ℕ} (h : Changes p t) (hr : r < p.admitted) :
    p.admitted ≤ t.admitted ∧
      ((p.requests r).result.isSome = true → (t.requests r).result = (p.requests r).result) := by
  induction h with
  | refl => exact ⟨le_rfl, fun _ => rfl⟩
  | tail _ hmove ih =>
    obtain ⟨hle, hkeep⟩ := ih
    obtain ⟨hc, b, hchange⟩ := hmove
    have hstep := hchange.request hc (hr.trans_le hle)
    refine ⟨hle.trans hchange.admitted_le, fun hs => ?_⟩
    rw [hstep.result (by rw [hkeep hs]; exact hs), hkeep hs]

theorem Sound.of_reachable (h : (system X V).Reachable G (some p)) : Sound p := by
  obtain ⟨q, hq, hsound⟩ := sound_of_reachable h
  cases hq
  exact hsound

/-! ### A run

Two requests on one connection, one that succeeds and one that fails, and a third that is cancelled
in the queue; then the pool is shut down. -/

def sampleStart : List (Label Unit Unit) :=
  [.admitRequest false .execute, .admitRequest false .query, .enter 0, .leave 0 (.value ()),
    .settle 0, .admitRequest false .execute]

def sampleEnd : List (Label Unit Unit) :=
  [.cancel false 2, .enter 0, .leave 0 (.error ⟨.database, .closed⟩), .settle 0,
    .slotClosed (.ok ()), .slotConnected (.ok ()), .shutdown false, .slotClosed (.ok ()),
    .databaseClosed (.ok ()) (.ok ())]

def poolAfter (ls : List (Label Unit Unit)) : Pool Unit Unit :=
  (((system Unit Unit).exec (some (created 1 1)) ls).bind id).getD (created 1 1)

theorem run_sampleStart : (system Unit Unit).Run Guard.free (some (created 1 1)) sampleStart
    (some (poolAfter sampleStart)) :=
  Transition.System.run_of_execWithin (g := fun _ _ => true) (fun _ _ _ => trivial) rfl

theorem run_sampleEnd : (system Unit Unit).Run Guard.free (some (created 1 1))
    (sampleStart ++ sampleEnd) (some (poolAfter (sampleStart ++ sampleEnd))) :=
  Transition.System.run_of_execWithin (g := fun _ _ => true) (fun _ _ _ => trivial) rfl

theorem reachable_sampleStart :
    (system Unit Unit).Reachable Guard.free (some (poolAfter sampleStart)) :=
  ⟨_, _, ⟨1, 1, Nat.one_pos, rfl⟩, run_sampleStart⟩

theorem reachable_sampleEnd :
    (system Unit Unit).Reachable Guard.free (some (poolAfter (sampleStart ++ sampleEnd))) :=
  ⟨_, _, ⟨1, 1, Nat.one_pos, rfl⟩, run_sampleEnd⟩

/-! ### Results -/

/-- **In no run is a partial operation reached outside its domain.** -/
theorem never_fails {s : Option (Pool X V)} (h : (system X V).Reachable G s) : s.isSome = true := by
  obtain ⟨p, rfl, -⟩ := sound_of_reachable h
  rfl

theorem never_fails_sampleEnd :
    (some (poolAfter (sampleStart ++ sampleEnd))).isSome = true := never_fails reachable_sampleEnd

/-- **A request is in one place**: in the queue, in the lease of one slot, or finished, once. Its
result does not change any more. -/
theorem placed_once (h : (system X V).Reachable G (some p)) {r : ℕ} (hr : r < p.admitted) :
    ((r ∈ p.queue ∧ (∀ i < p.connections, (p.slots i).lease ≠ some r) ∧
        (p.requests r).result = none ∧ p.log.count (.finished r) = 0) ∨
      (r ∉ p.queue ∧ (∃! i, i < p.connections ∧ (p.slots i).lease = some r) ∧
        (p.requests r).result = none ∧ p.log.count (.finished r) = 0) ∨
      (r ∉ p.queue ∧ (∀ i < p.connections, (p.slots i).lease ≠ some r) ∧
        (p.requests r).result.isSome = true ∧ p.log.count (.finished r) = 1)) ∧
    ∀ ls t, (system X V).Run G (some p) ls (some t) → (p.requests r).result.isSome = true →
      (t.requests r).result = (p.requests r).result := by
  have hsound := Sound.of_reachable h
  have hc := hsound.steady.mid.core
  have hp := hc.placed r hr nofun
  have hfinished := hsound.recorded.requests.finished r
  -- without a result there is no end of the request in the log
  have hzero : (p.requests r).result = none → p.log.count (.finished r) = 0 := fun hn => by
    refine List.count_eq_zero.mpr fun he => ?_
    have hs := (hfinished.mp he).2
    rw [hn] at hs
    cases hs
  refine ⟨?_, fun ls t hrun hs => ?_⟩
  · -- the state of the request decides where it is
    cases hs : (p.requests r).state with
    | queued =>
      have hq := hp.queued hs
      have hn := hc.result_of_queue hq
      exact .inl ⟨hq, fun i hi hl => hc.not_mem_queue_of_lease hi hl hq, hn, hzero hn⟩
    | dispatched | settling =>
      obtain ⟨i, hi, hl⟩ := hp.leased (by rw [hs]; decide)
      have hn := (hc.of_lease hi hl).2
      exact .inr (.inl ⟨hc.not_mem_queue_of_lease hi hl, ⟨i, ⟨hi, hl⟩, fun j hj =>
        hc.lease j hj.1 i hi r hj.2 hl⟩, hn, hzero hn⟩)
    | finished =>
      have hresult := hp.finished.mp hs
      refine .inr (.inr ⟨fun hq => ?_, fun i hi hl => ?_, hresult,
        hsound.recorded.legal.count_eq_one (fun k he => he.1) (hfinished.mpr ⟨hr, hresult⟩)⟩)
      · rw [hc.result_of_queue hq] at hresult
        cases hresult
      · rw [(hc.of_lease hi hl).2] at hresult
        cases hresult
  -- a change keeps a result, and a run is made of changes
  · obtain ⟨u, hu, -, hchanges⟩ := changes_of_run hsound rfl hrun
    cases hu
    exact (hchanges.request hr).2 hs

/-- The request that fails is finished once, after its connection has been closed. -/
theorem placed_once_sampleEnd :
    (poolAfter (sampleStart ++ sampleEnd)).log.count (.finished 1) = 1 := by
  rcases (placed_once reachable_sampleEnd (r := 1) (by decide)).1 with h | h | h
  · exact absurd h.2.2.1 (by decide)
  · exact absurd h.2.2.1 (by decide)
  · exact h.2.2.2

/-- **Requests are dispatched in the order of their admission.** The queue is bounded, and no slot
is idle while a request waits in it. -/
theorem dispatched_in_order (h : (system X V).Reachable G (some p)) :
    (∀ l r c k, p.log = l ++ .dispatched r c :: k → ∀ x d, .dispatched x d ∈ k → x < r) ∧
    (∀ r c, .dispatched r c ∈ p.log → ∀ x ∈ p.queue, r < x) ∧ p.queue.Pairwise (· < ·) ∧
    p.queue.length ≤ p.queueCapacity ∧
    (p.queue ≠ [] → ∀ i < p.connections, (p.slots i).state ≠ .idle) := by
  have hsound := Sound.of_reachable h
  refine ⟨fun l r c k hlog => ?_, fun r c hd => (hsound.recorded.requests.dispatched r c hd).2,
    hsound.recorded.requests.sorted, hsound.steady.mid.capacity, hsound.steady.fed⟩
  have hlegal := hsound.recorded.legal
  rw [hlog] at hlegal
  exact hlegal.at_event.2.2.2.1

theorem dispatched_in_order_sampleStart : (poolAfter sampleStart).queue = [2] ∧ 1 < 2 :=
  ⟨by decide, (dispatched_in_order reachable_sampleStart).2.1 1 0 (by decide) 2 (by decide)⟩

/-- **A connection is opened and closed once**, one close at a time; once its close has begun it
gets no request, and no helper works on it. The database is closed once, after all of them. -/
theorem connection_once (h : (system X V).Reachable G (some p)) :
    (∀ c < p.opened, p.log.count (.opened c) = 1 ∧ p.log.count (.closing c) ≤ 1 ∧
      p.log.count (.closed c) ≤ 1 ∧
      (.closed c ∈ p.log ∨ ∃! i, i < p.connections ∧ (p.slots i).owner = some c)) ∧
    (∀ l c k, p.log = l ++ .closing c :: k →
      (∀ d, .closing d ∈ k → .closed d ∈ k) ∧ ∀ r, .dispatched r c ∉ l ∧ .entered r c ∉ l) ∧
    (∀ i < p.connections, ∀ w, (p.slots i).work = some w → .closing w.owner ∉ p.log) ∧
    p.log.count .closingDatabase ≤ 1 ∧
    (.closingDatabase ∈ p.log → ∀ c < p.opened, p.log.count (.closed c) = 1) ∧
    (p.lifecycle = .stopped → .closingDatabase ∈ p.log) := by
  obtain ⟨hsteady, hrequests, hconnections, hleases, hlegal⟩ := Sound.of_reachable h
  have hc := hsteady.mid.core
  refine ⟨fun c hlt => ⟨?_, ?_, ?_, ?_⟩,
    fun l c k hlog => ⟨?_, fun r => ⟨fun hd => ?_, fun hd => ?_⟩⟩,
    fun i hi w hw => ?_, ?_, fun hd c hlt => ?_, fun hl => hconnections.database.mpr (.inr hl)⟩
  · exact hlegal.count_eq_one (fun k he => he.1) ((hconnections.opened c).mpr hlt)
  · exact hlegal.count_le_one fun k he => he.2.1
  · exact hlegal.count_le_one fun k he => he.2
  · refine (hconnections.kept c hlt).imp_right ?_
    rintro ⟨i, hi, ho⟩
    exact ⟨i, ⟨hi, ho⟩, fun j hj => hconnections.unique j hj.1 i hi c hj.2 ho⟩
  · rw [hlog] at hlegal
    exact hlegal.at_event.2.2
  · obtain ⟨l₁, l₂, rfl⟩ := List.append_of_mem hd
    rw [hlog, List.append_assoc] at hlegal
    exact hlegal.at_event.2.1 (List.mem_append_right l₂ List.mem_cons_self)
  · obtain ⟨l₁, l₂, rfl⟩ := List.append_of_mem hd
    rw [hlog, List.append_assoc] at hlegal
    exact hlegal.at_event.2.1 (List.mem_append_right l₂ List.mem_cons_self)
  · refine (hconnections.closing i hi _ (hleases.work i hi w hw).1).not.mpr ?_
    rw [(hc.of_work hi hw).1]
    decide
  · exact hlegal.count_le_one fun k he => he.1
  · refine hlegal.count_eq_one (fun k he => he.2) ((hconnections.kept c hlt).elim id ?_)
    rintro ⟨i, hi, ho⟩
    have howns := (hc.slot i hi).owner
    rw [ho] at howns
    -- a slot that is over and still owns its connection has failed to close it
    exact (hconnections.closed i hi c ho).mpr
      (SlotState.closeFailed_of_over (hconnections.allOver hd i hi) howns.symm)

theorem connection_once_sampleEnd :
    (poolAfter (sampleStart ++ sampleEnd)).log.count (.closed 1) = 1 :=
  (connection_once reachable_sampleEnd).2.2.2.2.1 (by decide) 1 (by decide)

/-- **A connection serves a further request only after one that has succeeded**; a request that
does not succeed has its result only after its connection has been closed. -/
theorem isolated (h : (system X V).Reachable G (some p)) :
    (∀ l r c k, p.log = l ++ .dispatched r c :: k → ∀ x, .dispatched x c ∈ k →
      .finished x ∈ k ∧ ∃ v, (p.requests x).result = some (.ok v)) ∧
    (∀ l r c k, p.log = l ++ .finished r :: k → .dispatched r c ∈ k →
      .closed c ∈ k ∨ ∃ v, (p.requests r).result = some (.ok v)) ∧
    (∀ l r c k, p.log = l ++ .entered r c :: k →
      .dispatched r c ∈ k ∧ .finished r ∉ k ∧ ∀ d, .entered r d ∉ k) := by
  have hlegal := (Sound.of_reachable h).recorded.legal
  refine ⟨fun l r c k hlog x hx => ?_, fun l r c k hlog hd => ?_, fun l r c k hlog => ?_⟩ <;>
    rw [hlog] at hlegal
  · have hend := hlegal.at_event.2.2.2.2 x hx
    exact ⟨hend.2, hend.1.2⟩
  · exact (hlegal.at_event.2 c hd).imp_right And.right
  · exact ⟨hlegal.at_event.1, hlegal.at_event.2.2.1, hlegal.at_event.2.2.2⟩

theorem isolated_sampleStart : .finished 0 ∈ [Event.finished 0, .entered 0 0, .dispatched 0 0,
    .opened 0] ∧ ∃ v, ((poolAfter sampleStart).requests 0).result = some (.ok v) :=
  (isolated reachable_sampleStart).1 [] 1 0 [.finished 0, .entered 0 0, .dispatched 0 0, .opened 0]
    rfl 0 (by decide)

/-! ### Cancellation -/

/-- A request that is latched, and has no result or has been interrupted. -/
structure Latched (p : Pool X V) (r : ℕ) : Prop where
  admitted : r < p.admitted
  cancelled : (p.requests r).gate.cancelled = true
  result : ∀ a, (p.requests r).result = some a → Interrupted a

theorem Move.latched {r : ℕ} (h : Move p t) (hr : Latched p r) : Latched t r := by
  obtain ⟨hc, b, h⟩ := h
  have hstep := h.request hc hr.admitted
  refine ⟨hr.admitted.trans_le h.admitted_le, hstep.cancelled hr.cancelled, fun a ha => ?_⟩
  cases hn : (p.requests r).result with
  | none => exact hstep.latched hr.cancelled hn a ha
  | some b =>
    have hs := hstep.result (by rw [hn]; rfl)
    exact hr.result a (hs.symm.trans ha)

/-- A latched request does not enter. -/
theorem Move.not_entered {r : ℕ} (h : Move p t) (hr : Latched p r)
    (hentered : ∀ c, .entered r c ∉ p.log) (c : ℕ) : .entered r c ∉ t.log := by
  have hcons : ∀ {e : Event}, .entered r c ≠ e → .entered r c ∉ e :: p.log := fun hne hmem =>
    hentered c ((mem_cons_of_ne hne).mp hmem)
  obtain ⟨-, b, h⟩ := h
  cases h with
  | enter hi hw ha hg =>
    refine hcons fun he => ?_
    cases he
    exact Bool.false_ne_true (hg.symm.trans hr.cancelled)
  | serveNew | serve | withdraw | refuse | finishLease | startClose | startDatabase | closed
  | closeFailed | connected => exact hcons Event.noConfusion
  | join | latch | bypass | leave | abandon | settle | cleanup | drain | skip | startConnect
  | connectFailed | databaseClosed | beginStop | poolFailure | slotFailure => exact hentered c

theorem Changes.latched {r : ℕ} (h : Changes p t) (hr : Latched p r) :
    Latched t r ∧ ((∀ c, .entered r c ∉ p.log) → ∀ c, .entered r c ∉ t.log) := by
  induction h with
  | refl => exact ⟨hr, id⟩
  | tail _ hmove ih =>
    exact ⟨hmove.latched ih.1, fun hentered => hmove.not_entered ih.1 (ih.2 hentered)⟩

/-- What a cancellation makes of a request that has no result. -/
theorem cancel_eq {r : ℕ} (h : Steady p) (hr : r < p.admitted) :
    ((p.requests r).state = .finished ∧
        cancel false r p = some (.ok .alreadyFinished, p)) ∨
      ((p.requests r).result = none ∧ ∃ t, cancel false r p = some (.ok .requested, t) ∧
        Latched t r ∧ (∀ x ≠ r, t.requests x = p.requests x) ∧ t.slots = p.slots ∧
          t.queue = p.queue.erase r ∧ ∀ c, .entered r c ∈ t.log → .entered r c ∈ p.log) := by
  have hc := h.mid.core
  have hp := hc.placed r hr nofun
  cases hs : (p.requests r).state with
  | finished => exact .inl ⟨rfl, by simp only [cancel, hs]; rfl⟩
  -- it leaves the queue, and is finished as cancelled
  | queued =>
    have hq := hp.queued hs
    have hnode := (hc.queue r hq).2.1
    have hf := ((hc.removeFirst hq).latchDangling.finish (.error (.expected .cancelled))).1
    refine .inr ⟨hc.result_of_queue hq, (latch r (p.removeFirst r (p.queue.erase r))).finished r
      (.error (.expected .cancelled)), ?_, ⟨hr, ?_, fun a ha => ?_⟩, fun x hx => ?_, rfl, rfl,
      fun c => (mem_cons_of_ne Event.noConfusion).mp⟩
    · simp only [cancel, hs, leaveQueue, hnode, hq, decide_true, Bool.and_self, if_true,
        Option.bind_some, hf]
      rfl
    · rw [requests_withdraw, Function.update_self]
      rfl
    · rw [requests_withdraw, Function.update_self] at ha
      cases ha
      exact interrupted_classify (q := (p.requests r).leaveQueue.latch) rfl _
    · rw [requests_withdraw, Function.update_of_ne hx]
  -- it is leased: only its latch is set
  | dispatched | settling =>
    obtain ⟨i, hi, hl⟩ := hp.leased (by rw [hs]; decide)
    have hn := (hc.of_lease hi hl).2
    have hself : (latch r p).requests r = (p.requests r).latch :=
      Pool.requests_modifyRequest_self ..
    refine .inr ⟨hn, latch r p, by simp only [cancel, hs]; rfl, ⟨hr, ?_, fun a ha => ?_⟩,
      fun x hx => Pool.requests_modifyRequest_of_ne hx .., rfl, ?_, fun c => id⟩
    · rw [hself]
      rfl
    · rw [hself] at ha
      cases hn.symm.trans ha
    · exact (List.erase_of_not_mem (hc.not_mem_queue_of_lease hi hl)).symm

/-- **A request whose cancellation has been acknowledged does not succeed** in any run, and does
not run when it has not been entered; the other requests and the slots are left alone. -/
theorem cancel_interrupts (h : (system X V).Reachable G (some p)) {r : ℕ} (hr : r < p.admitted)
    {a : CancelAck} (hcancel : cancel false r p = some (.ok a, t)) :
    (a = .alreadyFinished → t = p ∧ (p.requests r).result.isSome = true) ∧
    (a = .requested → (p.requests r).result = none ∧ (∀ x ≠ r, t.requests x = p.requests x) ∧
      t.slots = p.slots ∧ t.queue = p.queue.erase r ∧
      ∀ ls u, (system X V).Run G (some t) ls (some u) →
        (∀ b, (u.requests r).result = some b → Interrupted b) ∧
        ((∀ c, .entered r c ∉ p.log) → ∀ c, .entered r c ∉ u.log)) := by
  have hsound := Sound.of_reachable h
  have hstep : (system X V).step (some p) (.cancel false r) = some (some t) := by
    change handle p (.cancel false r) = _
    rw [handle, if_pos hr, hcancel]
    rfl
  obtain ⟨_, ht, hafter, -⟩ := hsound.step hstep
  cases ht
  rcases cancel_eq hsound.steady hr with ⟨hs, he⟩ | ⟨hn, q, he, hl, hother, hslots, hq, hentered⟩
  · cases hcancel.symm.trans he
    have hplaced := hsound.steady.mid.core.placed r hr fun he => by cases he
    exact ⟨fun _ => ⟨rfl, hplaced.finished.mp hs⟩,
      fun he => by cases he⟩
  · cases hcancel.symm.trans he
    refine ⟨(fun he => by cases he), fun _ => ⟨hn, hother, hslots, hq, fun ls u hrun => ?_⟩⟩
    obtain ⟨v, hv, -, hchanges⟩ := changes_of_run hafter rfl hrun
    cases hv
    -- what is latched stays latched, whoever goes on with the request
    obtain ⟨hl, hnever⟩ := hchanges.latched hl
    exact ⟨hl.result, fun hfresh => hnever fun c hc => hfresh c (hentered c hc)⟩

/-- The cancelled request does not run, to the end of the pool. -/
theorem cancel_interrupts_sampleStart : ∃ t,
    cancel false 2 (poolAfter sampleStart) = some (.ok .requested, t) ∧
      ∀ ls u, (system Unit Unit).Run Guard.free (some t) ls (some u) →
        ∀ c, .entered 2 c ∉ u.log := by
  refine ⟨_, rfl, fun ls u hrun => ?_⟩
  have hcancelled := (cancel_interrupts reachable_sampleStart (r := 2) (by decide) rfl).2 rfl
  refine (hcancelled.2.2.2.2 ls u hrun).2 fun c => ?_
  change Event.entered 2 c ∉
    [.dispatched 1 0, .finished 0, .entered 0 0, .dispatched 0 0, .opened 0]
  simp

end DuckdbMl.AsyncPool
