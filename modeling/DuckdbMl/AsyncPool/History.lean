import DuckdbMl.AsyncPool.Invariant
import DuckdbMl.Transition.History

/-!
# What an observer of the pool sees

The log of a pool is specified without its state: what may follow what. The requests, the
connections and the leases of the state fit the log, and no change records an event that the
specification does not allow.

## Main definitions

* `Allowed ok l e`: the event `e` may follow the events `l`; `ok` are the requests that succeed
* `RequestsOk`, `ConnectionsOk`, `LeasesOk`: how the state fits the log
-/

namespace DuckdbMl.AsyncPool

open Pool.Async (Answer combine)
open Transition (Legal)

variable {X V : Type} {p t : Pool X V} {i r c : ℕ} {b : Bool}

/-- **What may happen next.** Requests are dispatched in the order of their admission, to open
connections that have served only requests that succeed; a request that does not succeed is
finished only after its connection has been closed. Connections are closed one at a time, and the
database after all of them. -/
def Allowed (ok : ℕ → Prop) (l : List Event) : Event → Prop
  | .opened c => .opened c ∉ l ∧ .closingDatabase ∉ l
  | .dispatched r c => .opened c ∈ l ∧ .closing c ∉ l ∧ .finished r ∉ l ∧
      (∀ x k, .dispatched x k ∈ l → x < r) ∧ ∀ x, .dispatched x c ∈ l → ok x ∧ .finished x ∈ l
  | .entered r c => .dispatched r c ∈ l ∧ .closing c ∉ l ∧ .finished r ∉ l ∧
      ∀ k, .entered r k ∉ l
  | .closing c => .opened c ∈ l ∧ .closing c ∉ l ∧ ∀ k, .closing k ∈ l → .closed k ∈ l
  | .closed c => .closing c ∈ l ∧ .closed c ∉ l
  | .finished r => .finished r ∉ l ∧ ∀ c, .dispatched r c ∈ l → .closed c ∈ l ∨ ok r
  | .closingDatabase => .closingDatabase ∉ l ∧ ∀ c, .opened c ∈ l → .closed c ∈ l

theorem Allowed.mono {ok ok' : ℕ → Prop} (hok : ∀ r, ok r → ok' r) {l : List Event} {e : Event}
    (h : Allowed ok l e) : Allowed ok' l e := by
  cases e with
  | opened c => exact h
  | dispatched r c =>
    exact ⟨h.1, h.2.1, h.2.2.1, h.2.2.2.1, fun x hx => (h.2.2.2.2 x hx).imp_left (hok x)⟩
  | entered r c => exact h
  | closing c => exact h
  | closed c => exact h
  | finished r => exact ⟨h.1, fun c hc => (h.2 c hc).imp_right (hok r)⟩
  | closingDatabase => exact h

/-! ### How the state fits the log -/

/-- The request has a value. -/
def Pool.Succeeded (p : Pool X V) (r : ℕ) : Prop :=
  r < p.admitted ∧ ∃ v, (p.requests r).result = some (.ok v)

/-- The requests fit the log. -/
structure RequestsOk (p : Pool X V) : Prop where
  finished : ∀ r, .finished r ∈ p.log ↔ r < p.admitted ∧ (p.requests r).result.isSome = true
  dispatched : ∀ r c, .dispatched r c ∈ p.log → r < p.admitted ∧ ∀ x ∈ p.queue, r < x
  entered : ∀ r c, .entered r c ∈ p.log →
    r < p.admitted ∧ (p.requests r).gate.execution ≠ .awaitingEntry
  sorted : p.queue.Pairwise (· < ·)

/-- The connections fit the log. -/
structure ConnectionsOk (p : Pool X V) : Prop where
  opened : ∀ c, .opened c ∈ p.log ↔ c < p.opened
  bound : ∀ c, .closing c ∈ p.log ∨ .closed c ∈ p.log → c < p.opened
  owner : ∀ i < p.connections, ∀ c, (p.slots i).owner = some c → c < p.opened
  unique : ∀ i < p.connections, ∀ j < p.connections, ∀ c,
    (p.slots i).owner = some c → (p.slots j).owner = some c → i = j
  closing : ∀ i < p.connections, ∀ c, (p.slots i).owner = some c →
    (.closing c ∈ p.log ↔ (p.slots i).state = .closing ∨ (p.slots i).state = .closeFailed)
  closed : ∀ i < p.connections, ∀ c, (p.slots i).owner = some c →
    (.closed c ∈ p.log ↔ (p.slots i).state = .closeFailed)
  kept : ∀ c < p.opened, .closed c ∈ p.log ∨ ∃ i < p.connections, (p.slots i).owner = some c
  pending : ∀ c, .closing c ∈ p.log →
    .closed c ∈ p.log ∨ ∃ i, p.maintenance = some (.closeSlot i c)
  database : .closingDatabase ∈ p.log ↔
    p.maintenance = some .closeDatabase ∨ p.lifecycle = .stopped
  allOver : .closingDatabase ∈ p.log → ∀ i < p.connections, (p.slots i).state.over = true

/-- The leases fit the log. -/
structure LeasesOk (p : Pool X V) : Prop where
  opened : ∀ r c, .dispatched r c ∈ p.log → c < p.opened
  work : ∀ i < p.connections, ∀ w, (p.slots i).work = some w →
    (p.slots i).owner = some w.owner ∧ .dispatched w.request w.owner ∈ p.log
  lease : ∀ i < p.connections, ∀ r c, (p.slots i).lease = some r → .dispatched r c ∈ p.log →
    .closed c ∈ p.log ∨ (p.slots i).owner = some c ∧ ((p.slots i).state = .idle →
      (∃ v, (p.requests r).outcome = some (.ok v)) ∧ (p.requests r).gate.cancelled = false)
  used : ∀ i < p.connections, ∀ r c, (p.slots i).owner = some c → .closing c ∉ p.log →
    .dispatched r c ∈ p.log → (p.slots i).lease = some r ∨ p.Succeeded r

/-! ### What a change does to a request -/

/-- How a latched request ends. -/
def Interrupted (result : Result X V) : Prop :=
  result = .error (.expected .cancelled) ∨ ∃ f, result = .error (.duringCancellation f)

theorem interrupted_classify {q : Request X V} (h : q.gate.cancelled = true)
    (result : Result X V) : Interrupted (classify q result) := by
  unfold classify
  rw [h, Bool.not_true, if_neg Bool.false_ne_true]
  split
  · exact .inl rfl
  · exact .inl rfl
  · exact .inl rfl
  · exact .inr ⟨_, rfl⟩

/-- A result stays, a latch stays, and a request that has been latched is interrupted. -/
structure RequestStep (q q' : Request X V) : Prop where
  result : q.result.isSome = true → q'.result = q.result
  cancelled : q.gate.cancelled = true → q'.gate.cancelled = true
  execution : q'.gate.execution = .awaitingEntry → q.gate.execution = .awaitingEntry
  latched : q.gate.cancelled = true → q.result = none → ∀ a, q'.result = some a → Interrupted a

theorem RequestStep.refl (q : Request X V) : RequestStep q q :=
  ⟨fun _ => rfl, id, id, fun _ hn _ ha => absurd (hn.symm.trans ha) (Option.some_ne_none _).symm⟩

/-- A request that keeps its result. -/
theorem RequestStep.of_result {q q' : Request X V} (hresult : q'.result = q.result)
    (hcancelled : q.gate.cancelled = true → q'.gate.cancelled = true)
    (hexecution : q'.gate.execution = .awaitingEntry → q.gate.execution = .awaitingEntry) :
    RequestStep q q' where
  result _ := hresult
  cancelled := hcancelled
  execution := hexecution
  latched _ hn a ha := absurd (hn.symm.trans (hresult.symm.trans ha)) (Option.some_ne_none a).symm

/-- A request that is finished. -/
theorem RequestStep.finish {q q' : Request X V} (hresult : q.result = none)
    (hcancelled : q.gate.cancelled = true → q'.gate.cancelled = true)
    (hexecution : q'.gate.execution = q.gate.execution) (result : Result X V) :
    RequestStep q (q'.finish result) where
  result hs := by
    rw [hresult] at hs
    cases hs
  cancelled := hcancelled
  execution he := hexecution.symm.trans he
  latched hc _ a ha := by
    cases ha
    exact interrupted_classify (hcancelled hc) result

theorem RequestStep.update {q : Request X V} (h : RequestStep (p.requests r) q) (x : ℕ) :
    RequestStep (p.requests x) (Function.update p.requests r q x) := by
  by_cases hx : x = r
  · rw [hx, Function.update_self]
    exact h
  · rw [Function.update_of_ne hx]
    exact .refl _

theorem requests_join (operation : Operation) (p : Pool X V) :
    ((p.addRequest operation).insertLast p.admitted).requests =
      Function.update p.requests p.admitted (newRequest operation).joinQueue := by
  simp [Pool.insertLast, Pool.modifyRequest, Pool.addRequest]

theorem requests_serveNew (i c : ℕ) (operation : Operation) (p : Pool X V) :
    ((p.addRequest operation).given i p.admitted c operation).requests =
      Function.update p.requests p.admitted (newRequest operation).dispatch := by
  simp [Pool.given, Pool.record, Pool.modifyRequest, Pool.modifySlot, Pool.addRequest]

theorem requests_serve (i r c : ℕ) (rest : List ℕ) (operation : Operation) (p : Pool X V) :
    ((p.removeFirst r rest).given i r c operation).requests =
      Function.update p.requests r (p.requests r).leaveQueue.dispatch := by
  simp [Pool.given, Pool.record, Pool.modifyRequest, Pool.modifySlot, Pool.removeFirst]

theorem requests_withdraw (r : ℕ) (rest : List ℕ) (result : Result X V) (p : Pool X V) :
    ((latch r (p.removeFirst r rest)).finished r result).requests =
      Function.update p.requests r ((p.requests r).leaveQueue.latch.finish result) := by
  simp [Pool.finished, Pool.record, Pool.modifyRequest, latch, Pool.removeFirst]

theorem requests_refuse (r : ℕ) (rest : List ℕ) (result : Result X V) (p : Pool X V) :
    ((p.removeFirst r rest).finished r result).requests =
      Function.update p.requests r ((p.requests r).leaveQueue.finish result) := by
  simp [Pool.finished, Pool.record, Pool.modifyRequest, Pool.removeFirst]

/-- **A change to a request.** -/
theorem Change.request (h : Change p b t) (hc : Core none p) {x : ℕ} (hx : x < p.admitted) :
    RequestStep (p.requests x) (t.requests x) := by
  cases h with
  | join operation hlife hroom =>
    rw [requests_join, Function.update_of_ne hx.ne]
    exact .refl _
  | serveNew operation hi hs hl hown hq =>
    rw [requests_serveNew, Function.update_of_ne hx.ne]
    exact .refl _
  -- a dispatch leaves the result and the latch
  | serve operation hi hs hl hown hq =>
    rw [requests_serve]
    refine .update ?_ x
    exact .of_result rfl id id
  -- only a request without a result is finished
  | withdraw hr =>
    rw [requests_withdraw]
    refine .update ?_ x
    refine .finish ?_ ?_ ?_ _
    exacts [hc.result_of_queue hr, fun _ => rfl, rfl]
  | refuse hq =>
    rw [requests_refuse]
    refine .update ?_ x
    refine .finish ?_ ?_ ?_ _
    exacts [hc.result_of_queue (hq ▸ List.mem_cons_self), id, rfl]
  | @latch i r hi hl hs =>
    change RequestStep _ (Function.update p.requests r (p.requests r).latch x)
    refine .update ?_ x
    exact .of_result rfl (fun _ => rfl) id
  | @enter i w hi hw ha hg =>
    change RequestStep _ (Function.update p.requests w.request
      ((p.requests w.request).execution .executing) x)
    refine .update ?_ x
    exact .of_result rfl id nofun
  | @bypass i w hi hw ha hg =>
    change RequestStep _ (Function.update p.requests w.request
      ((p.requests w.request).execution .returned) x)
    refine .update ?_ x
    exact .of_result rfl id nofun
  | @leave i w result hi hw ha =>
    change RequestStep _ (Function.update p.requests w.request
      ((p.requests w.request).execution .returned) x)
    refine .update ?_ x
    exact .of_result rfl id nofun
  | @settle i w result a hi hw hstage ha =>
    change RequestStep _ (Function.update p.requests w.request
      ((p.requests w.request).settle result) x)
    refine .update ?_ x
    exact .of_result rfl id id
  | @finishLease i r outcome hi hs hl ho =>
    change RequestStep _ (Function.update p.requests r ((p.requests r).finish outcome) x)
    exact .update (.finish (hc.of_lease hi hl).2 id rfl _) x
  | @cleanup i r outcome result hi hs hl ho =>
    change RequestStep _ (Function.update p.requests r
      ((p.requests r).addCleanup result outcome) x)
    refine .update ?_ x
    exact .of_result rfl id id
  -- the others change no request
  | abandon | drain | skip | startClose | startConnect | startDatabase | closed | closeFailed
  | connected | connectFailed | databaseClosed | beginStop | poolFailure | slotFailure =>
    exact .refl _

theorem Change.admitted_le (h : Change p b t) : p.admitted ≤ t.admitted := by
  cases h with
  | join | serveNew => exact Nat.le_succ _
  | _ => exact le_rfl

/-- A request that has succeeded stays so. -/
theorem Change.succeeded (h : Change p b t) (hc : Core none p) (hs : p.Succeeded r) :
    t.Succeeded r := by
  obtain ⟨hr, v, hv⟩ := hs
  exact ⟨hr.trans_le h.admitted_le, v, ((h.request hc hr).result (by rw [hv]; rfl)).trans hv⟩

/-! ### Requests -/

/-- The events of requests. -/
def Event.ofRequest : Event → Bool
  | .dispatched _ _ | .entered _ _ | .finished _ => true
  | .opened _ | .closing _ | .closed _ | .closingDatabase => false

theorem mem_cons_of_ne {e k : Event} {l : List Event} (h : e ≠ k) : e ∈ k :: l ↔ e ∈ l :=
  List.mem_cons.trans (or_iff_right h)

theorem mem_cons_of_ofRequest {e k : Event} {l : List Event} (he : e.ofRequest = true)
    (hk : k.ofRequest = false) : e ∈ k :: l ↔ e ∈ l := by
  refine mem_cons_of_ne ?_
  rintro rfl
  exact Bool.false_ne_true (hk.symm.trans he)

/-- No request is finished, dispatched or entered. -/
theorem RequestsOk.same (h : RequestsOk p)
    (hlog : ∀ e, e.ofRequest = true → (e ∈ t.log ↔ e ∈ p.log))
    (hqueue : t.queue = p.queue) (hadmitted : t.admitted = p.admitted)
    (hrequests : ∀ x, (t.requests x).result = (p.requests x).result ∧
      ((t.requests x).gate.execution = .awaitingEntry →
        (p.requests x).gate.execution = .awaitingEntry)) : RequestsOk t where
  finished x := by
    rw [hlog _ rfl, hadmitted, (hrequests x).1]
    exact h.finished x
  dispatched x k hx := by
    rw [hqueue, hadmitted]
    exact h.dispatched x k ((hlog _ rfl).mp hx)
  entered x k hx := by
    rw [hadmitted]
    exact (h.entered x k ((hlog _ rfl).mp hx)).imp_right fun hne he => hne ((hrequests x).2 he)
  sorted := hqueue ▸ h.sorted

/-- A request is finished. -/
theorem RequestsOk.finish {q : Request X V} (h : RequestsOk p) (hr : r < p.admitted)
    (hlog : t.log = .finished r :: p.log) (hqueue : t.queue.Sublist p.queue)
    (hadmitted : t.admitted = p.admitted) (hrequests : t.requests = Function.update p.requests r q)
    (hresult : q.result.isSome = true)
    (hexecution : q.gate.execution = (p.requests r).gate.execution) : RequestsOk t where
  finished x := by
    rw [hlog, hadmitted, hrequests, List.mem_cons, h.finished x]
    by_cases hx : x = r
    · subst hx
      rw [Function.update_self]
      exact iff_of_true (.inl rfl) ⟨hr, hresult⟩
    · rw [Function.update_of_ne hx]
      exact or_iff_right fun he => hx (Event.finished.inj he)
  dispatched x k hx := by
    rw [hlog] at hx
    rw [hadmitted]
    have hd := h.dispatched x k ((List.mem_cons.mp hx).resolve_left fun he => by cases he)
    exact ⟨hd.1, fun y hy => hd.2 y (hqueue.subset hy)⟩
  entered x k hx := by
    rw [hlog] at hx
    rw [hadmitted, hrequests]
    have he := h.entered x k ((List.mem_cons.mp hx).resolve_left fun he => by cases he)
    refine ⟨he.1, ?_⟩
    by_cases hxr : x = r
    · subst hxr
      rw [Function.update_self, hexecution]
      exact he.2
    · rw [Function.update_of_ne hxr]
      exact he.2
  sorted := h.sorted.sublist hqueue

/-- A new request. -/
theorem RequestsOk.addRequest {q : Request X V} (h : RequestsOk p)
    (hadmitted : t.admitted = p.admitted + 1)
    (hrequests : t.requests = Function.update p.requests p.admitted q) (hresult : q.result = none)
    (hqueue : t.queue.Pairwise (· < ·))
    (hfinished : ∀ x, .finished x ∈ t.log ↔ .finished x ∈ p.log)
    (hlog : ∀ e ∈ t.log, e.ofRequest = true → e ∈ p.log ∨ ∃ c, e = .dispatched p.admitted c ∧
      t.queue = []) (hlater : ∀ x ∈ t.queue, x ∈ p.queue ∨ x = p.admitted) : RequestsOk t where
  finished x := by
    rw [hfinished, h.finished x, hadmitted, hrequests]
    by_cases hx : x = p.admitted
    -- the new request has no result, and no end in the log
    · subst hx
      rw [Function.update_self, hresult]
      exact iff_of_false (fun he => lt_irrefl _ he.1) fun he => Bool.false_ne_true he.2
    · rw [Function.update_of_ne hx]
      exact and_congr_left fun _ => ⟨Nat.lt_succ_of_lt, fun hlt => by omega⟩
  dispatched x k hx := by
    rw [hadmitted]
    rcases hlog _ hx rfl with hx | ⟨c, he, hempty⟩
    · have hd := h.dispatched x k hx
      refine ⟨Nat.lt_succ_of_lt hd.1, fun y hy => ?_⟩
      rcases hlater y hy with hy | rfl
      · exact hd.2 y hy
      · exact hd.1
    -- it is dispatched only past an empty queue
    · cases he
      rw [hempty]
      exact ⟨Nat.lt_succ_self _, nofun⟩
  entered x k hx := by
    rw [hadmitted, hrequests]
    rcases hlog _ hx rfl with hx | ⟨c, he, -⟩
    · have he := h.entered x k hx
      rw [Function.update_of_ne he.1.ne]
      exact ⟨Nat.lt_succ_of_lt he.1, he.2⟩
    · cases he
  sorted := hqueue

/-- The first request of the queue is dispatched. -/
theorem RequestsOk.dispatch {q : Request X V} {rest : List ℕ} (h : RequestsOk p)
    (hr : r < p.admitted) (hlog : t.log = .dispatched r c :: p.log) (hq : p.queue = r :: rest)
    (hqueue : t.queue = rest) (hadmitted : t.admitted = p.admitted)
    (hrequests : t.requests = Function.update p.requests r q)
    (hresult : q.result = (p.requests r).result)
    (hexecution : q.gate.execution = (p.requests r).gate.execution) : RequestsOk t where
  finished x := by
    rw [hlog, mem_cons_of_ne Event.noConfusion, h.finished x, hadmitted, hrequests]
    by_cases hx : x = r
    · rw [hx, Function.update_self, hresult]
    · rw [Function.update_of_ne hx]
  dispatched x k hx := by
    -- the first request is the least of the queue
    have hsorted := h.sorted
    rw [hq] at hsorted
    rw [hlog] at hx
    rw [hadmitted, hqueue]
    rcases List.mem_cons.mp hx with he | hx
    · cases he
      exact ⟨hr, (List.pairwise_cons.mp hsorted).1⟩
    · have hd := h.dispatched x k hx
      rw [hq] at hd
      exact ⟨hd.1, fun y hy => hd.2 y (List.mem_cons_of_mem r hy)⟩
  entered x k hx := by
    rw [hlog, mem_cons_of_ne Event.noConfusion] at hx
    rw [hadmitted, hrequests]
    have he := h.entered x k hx
    refine ⟨he.1, ?_⟩
    by_cases hxr : x = r
    · subst hxr
      rw [Function.update_self, hexecution]
      exact he.2
    · rw [Function.update_of_ne hxr]
      exact he.2
  sorted := by
    rw [hqueue]
    exact (List.pairwise_cons.mp (hq ▸ h.sorted)).2

theorem update_same {q : Request X V} (hresult : q.result = (p.requests r).result)
    (hexecution : q.gate.execution = .awaitingEntry →
      (p.requests r).gate.execution = .awaitingEntry) (x : ℕ) :
    (Function.update p.requests r q x).result = (p.requests x).result ∧
      ((Function.update p.requests r q x).gate.execution = .awaitingEntry →
        (p.requests x).gate.execution = .awaitingEntry) := by
  by_cases hx : x = r
  · rw [hx, Function.update_self]
    exact ⟨hresult, hexecution⟩
  · rw [Function.update_of_ne hx]
    exact ⟨rfl, id⟩

theorem Change.requestsOk (h : Change p b t) (hc : Core none p) (hr : RequestsOk p) :
    RequestsOk t := by
  cases h with
  -- the new number is greater than all in the queue
  | join operation hlife hroom =>
    have hmem : ∀ x, x ∈ p.queue ++ [p.admitted] ↔ x ∈ p.queue ∨ x = p.admitted := fun x =>
      List.mem_append.trans (or_congr_right List.mem_singleton)
    refine hr.addRequest rfl (requests_join operation p) rfl ?_ (fun _ => Iff.rfl)
      (fun _ he _ => .inl he) fun x hx => (hmem x).mp hx
    refine List.pairwise_append.mpr ⟨hr.sorted, List.pairwise_singleton _ _, fun x hx y hy => ?_⟩
    rw [List.mem_singleton.mp hy]
    exact (hc.queue x hx).1
  | @serveNew i c operation hi hs hl hown hq =>
    refine hr.addRequest rfl (requests_serveNew i c operation p) rfl hr.sorted
      (fun _ => mem_cons_of_ne Event.noConfusion) (fun e he _ => ?_) fun x hx => .inl hx
    exact (List.mem_cons.mp he).symm.imp_right fun he => ⟨c, he, hq⟩
  -- what changes a place is a case of the lemmas above
  | @serve i c r rest operation hi hs hl hown hq =>
    exact hr.dispatch (hc.queue r (hq ▸ List.mem_cons_self)).1 rfl hq rfl rfl
      (requests_serve i r c rest operation p) rfl rfl
  | @withdraw r hmem =>
    exact hr.finish (hc.queue r hmem).1 rfl List.erase_sublist rfl (requests_withdraw ..) rfl rfl
  | @refuse r rest hq =>
    exact hr.finish (hc.queue r (hq ▸ List.mem_cons_self)).1 rfl
      (hq ▸ List.sublist_cons_self r rest) rfl (requests_refuse ..) rfl rfl
  | @latch i r hi hl hs =>
    exact hr.same (fun _ _ => Iff.rfl) rfl rfl (update_same (q := (p.requests r).latch) rfl id)
  -- the request that enters does not await its execution any more
  | @enter i w hi hw ha hg =>
    have hsame := update_same (p := p) (r := w.request)
      (q := (p.requests w.request).execution .executing) rfl nofun
    refine ⟨fun x => ?_, fun x k hx => ?_, fun x k hx => ?_, hr.sorted⟩
    · refine (mem_cons_of_ne Event.noConfusion).trans ((hr.finished x).trans ?_)
      exact and_congr_right fun _ => (congrArg (Option.isSome · = true) (hsame x).1).symm.to_iff
    · exact hr.dispatched x k ((mem_cons_of_ne Event.noConfusion).mp hx)
    · rcases List.mem_cons.mp hx with he | hx
      · cases he
        refine ⟨hc.leased i hi _ (hc.of_work hi hw).2.1, ?_⟩
        change (Function.update p.requests w.request _ w.request).gate.execution ≠ _
        rw [Function.update_self]
        exact nofun
      · have he := hr.entered x k hx
        exact ⟨he.1, fun hawaiting => he.2 ((hsame x).2 hawaiting)⟩
  | @bypass i w hi hw ha hg =>
    exact hr.same (fun _ _ => Iff.rfl) rfl rfl
      (update_same (q := (p.requests w.request).execution .returned) rfl nofun)
  | @leave i w result hi hw ha =>
    exact hr.same (fun _ _ => Iff.rfl) rfl rfl
      (update_same (q := (p.requests w.request).execution .returned) rfl nofun)
  | @settle i w result a hi hw hstage ha =>
    exact hr.same (fun _ _ => Iff.rfl) rfl rfl
      (update_same (q := (p.requests w.request).settle result) rfl id)
  | @finishLease i r outcome hi hs hl ho =>
    exact hr.finish (hc.leased i hi r hl) rfl (.refl _) rfl rfl rfl rfl
  | @cleanup i r outcome result hi hs hl ho =>
    exact hr.same (fun _ _ => Iff.rfl) rfl rfl
      (update_same (q := (p.requests r).addCleanup result outcome) rfl id)
  -- the others record nothing about a request
  | abandon | drain | skip | startConnect | beginStop | poolFailure | slotFailure =>
    exact hr.same (fun _ _ => Iff.rfl) rfl rfl fun x => ⟨rfl, id⟩
  | connectFailed | databaseClosed =>
    exact hr.same (fun _ _ => Iff.rfl) rfl rfl fun x => ⟨rfl, id⟩
  | startClose | startDatabase | closed | closeFailed | connected =>
    exact hr.same (fun e he => mem_cons_of_ofRequest he rfl) rfl rfl fun x => ⟨rfl, id⟩

/-! ### Connections -/

theorem mem_cons_of_not_ofRequest {e k : Event} {l : List Event} (he : e.ofRequest = false)
    (hk : k.ofRequest = true) : e ∈ k :: l ↔ e ∈ l := by
  refine mem_cons_of_ne ?_
  rintro rfl
  exact Bool.false_ne_true (he.symm.trans hk)

/-- A slot whose connection is neither opened nor closed. -/
structure SameConnection (s s' : Slot X V) : Prop where
  owner : s'.owner = s.owner
  closing : s'.state = .closing ↔ s.state = .closing
  closeFailed : s'.state = .closeFailed ↔ s.state = .closeFailed
  staysOver : s.state.over = true → s'.state.over = true

theorem SameConnection.refl (s : Slot X V) : SameConnection s s := ⟨rfl, .rfl, .rfl, id⟩

theorem SameConnection.of_state {s s' : Slot X V} (howner : s'.owner = s.owner)
    (hstate : s'.state = s.state) : SameConnection s s' :=
  ⟨howner, by rw [hstate], by rw [hstate], by rw [hstate]; exact id⟩

theorem SameConnection.become {s s' : Slot X V} (howner : s'.owner = s.owner)
    (hs : s.state ≠ .closing ∧ s.state ≠ .closeFailed ∧ s.state.over = false)
    (hs' : s'.state ≠ .closing ∧ s'.state ≠ .closeFailed) : SameConnection s s' :=
  ⟨howner, iff_of_false hs'.1 hs.1, iff_of_false hs'.2 hs.2.1,
    fun he => absurd (hs.2.2.symm.trans he) Bool.false_ne_true⟩

theorem SameConnection.update {s : Slot X V} (h : SameConnection (p.slots i) s) (j : ℕ) :
    SameConnection (p.slots j) (Function.update p.slots i s j) := by
  by_cases hj : j = i
  · rw [hj, Function.update_self]
    exact h
  · rw [Function.update_of_ne hj]
    exact .refl _

/-- No connection is opened or closed. -/
theorem ConnectionsOk.same (h : ConnectionsOk p)
    (hlog : ∀ e, e.ofRequest = false → (e ∈ t.log ↔ e ∈ p.log)) (hn : t.connections = p.connections)
    (hopened : t.opened = p.opened) (hslots : ∀ j, SameConnection (p.slots j) (t.slots j))
    (hclose : ∀ i c, p.maintenance = some (.closeSlot i c) → t.maintenance = some (.closeSlot i c))
    (hdatabase : t.maintenance = some .closeDatabase ↔ p.maintenance = some .closeDatabase)
    (hlife : t.lifecycle = .stopped ↔ p.lifecycle = .stopped) : ConnectionsOk t where
  -- neither the slots nor the log differ in what they say of connections
  opened k := by rw [hlog _ rfl, hopened, h.opened]
  bound k hk := by
    rw [hlog _ rfl, hlog _ rfl] at hk
    exact hopened ▸ h.bound k hk
  owner j hj k hk := by
    rw [(hslots j).owner] at hk
    exact hopened ▸ h.owner j (hn ▸ hj) k hk
  unique j hj x hx k hjk hxk := by
    rw [(hslots j).owner] at hjk
    rw [(hslots x).owner] at hxk
    exact h.unique j (hn ▸ hj) x (hn ▸ hx) k hjk hxk
  closing j hj k hk := by
    rw [(hslots j).owner] at hk
    rw [hlog _ rfl, (hslots j).closing, (hslots j).closeFailed]
    exact h.closing j (hn ▸ hj) k hk
  closed j hj k hk := by
    rw [(hslots j).owner] at hk
    rw [hlog _ rfl, (hslots j).closeFailed]
    exact h.closed j (hn ▸ hj) k hk
  kept k hk := by
    rw [hlog _ rfl, hn]
    refine (h.kept k (hopened ▸ hk)).imp_right ?_
    rintro ⟨j, hj, ho⟩
    exact ⟨j, hj, (hslots j).owner.trans ho⟩
  pending k hk := by
    rw [hlog _ rfl] at hk ⊢
    refine (h.pending k hk).imp_right ?_
    rintro ⟨j, hm⟩
    exact ⟨j, hclose j k hm⟩
  database := by rw [hlog _ rfl, hdatabase, hlife, h.database]
  allOver hd j hj := by
    rw [hlog _ rfl] at hd
    exact (hslots j).staysOver (h.allOver hd j (hn ▸ hj))

/-- The close of a connection begins. -/
theorem ConnectionsOk.close {s : Slot X V} (h : ConnectionsOk p) (hi : i < p.connections)
    (hc : (p.slots i).owner = some c) (hs : (p.slots i).state = .needsClose)
    (hm : p.maintenance = none) (hlog : t.log = .closing c :: p.log)
    (hn : t.connections = p.connections) (hopened : t.opened = p.opened)
    (hslots : t.slots = Function.update p.slots i s) (howner : s.owner = some c)
    (hstate : s.state = .closing) (hmt : t.maintenance = some (.closeSlot i c))
    (hlife : t.lifecycle = p.lifecycle) : ConnectionsOk t := by
  -- the database is not being closed: this slot is not over
  have hdatabase : .closingDatabase ∉ p.log := fun hd => by
    have ho := h.allOver hd i hi
    rw [hs] at ho
    cases ho
  -- every other slot keeps its owner, which is not `c`
  have hother : ∀ j < p.connections, ∀ k, (t.slots j).owner = some k →
      j = i ∧ k = c ∨ j ≠ i ∧ k ≠ c ∧ (p.slots j).owner = some k := by
    intro j hj k hk
    rw [hslots] at hk
    by_cases hji : j = i
    · rw [hji, Function.update_self, howner] at hk
      exact .inl ⟨hji, (Option.some.inj hk).symm⟩
    · rw [Function.update_of_ne hji] at hk
      refine .inr ⟨hji, ?_, hk⟩
      rintro rfl
      exact hji (h.unique j hj i hi k hk hc)
  refine ⟨fun k => ?_, fun k hk => ?_, fun j hj k hk => ?_, fun j hj x hx k hjk hxk => ?_,
    fun j hj k hk => ?_, fun j hj k hk => ?_, fun k hk => ?_, fun k hk => ?_, ?_, fun hd => ?_⟩
  · rw [hlog, hopened, mem_cons_of_ne Event.noConfusion, h.opened]
  -- what is closing or closed was opened
  · rw [hlog, List.mem_cons, mem_cons_of_ne Event.noConfusion] at hk
    rw [hopened]
    rcases hk with (he | hk) | hk
    · cases he
      exact h.owner i hi _ hc
    · exact h.bound k (.inl hk)
    · exact h.bound k (.inr hk)
  · rw [hopened]
    rw [hn] at hj
    rcases hother j hj k hk with ⟨-, rfl⟩ | ⟨-, -, ho⟩
    · exact h.owner i hi _ hc
    · exact h.owner j hj k ho
  -- no two slots own one connection
  · rw [hn] at hj hx
    rcases hother j hj k hjk with ⟨rfl, rfl⟩ | ⟨hji, hne, ho⟩ <;>
      rcases hother x hx k hxk with ⟨rfl, hk⟩ | ⟨hxi, hne', ho'⟩
    · rfl
    · exact absurd rfl hne'
    · exact absurd hk hne
    · exact h.unique j hj x hx k ho ho'
  -- the connections being closed are those of the slots that close
  · rw [hn] at hj
    rw [hlog, List.mem_cons]
    rcases hother j hj k hk with ⟨rfl, rfl⟩ | ⟨hji, hne, ho⟩
    · rw [hslots, Function.update_self]
      exact iff_of_true (.inl rfl) (.inl hstate)
    · rw [hslots, Function.update_of_ne hji, ← h.closing j hj k ho]
      exact or_iff_right fun he => hne (Event.closing.inj he)
  · rw [hn] at hj
    rw [hlog, mem_cons_of_ne Event.noConfusion]
    rcases hother j hj k hk with ⟨rfl, rfl⟩ | ⟨hji, hne, ho⟩
    · rw [hslots, Function.update_self, h.closed j hj k hc, hs, hstate]
      exact iff_of_false (by decide) (by decide)
    · rw [hslots, Function.update_of_ne hji]
      exact h.closed j hj k ho
  -- a connection that is not closed is still owned
  · rw [hlog, mem_cons_of_ne Event.noConfusion, hn]
    refine (h.kept k (hopened ▸ hk)).imp_right ?_
    rintro ⟨j, hj, ho⟩
    refine ⟨j, hj, ?_⟩
    rw [hslots]
    by_cases hji : j = i
    · rw [hji] at ho
      rw [hji, Function.update_self, howner, ← hc, ho]
    · rw [Function.update_of_ne hji]
      exact ho
  -- the close that is under way is the maintenance
  · rw [hlog, mem_cons_of_ne Event.noConfusion]
    rw [hlog, List.mem_cons] at hk
    rcases hk with he | hk
    · cases he
      exact .inr ⟨i, hmt⟩
    · refine .inl ((h.pending k hk).resolve_right ?_)
      rintro ⟨j, he⟩
      cases hm.symm.trans he
  · rw [hlog, mem_cons_of_ne Event.noConfusion, h.database, hm, hmt, hlife]
    exact or_congr_left (iff_of_false nofun nofun)
  · rw [hlog, mem_cons_of_ne Event.noConfusion] at hd
    exact absurd hd hdatabase

/-- The close of a connection ends. -/
theorem ConnectionsOk.retire {s : Slot X V} (h : ConnectionsOk p) (hi : i < p.connections)
    (hc : (p.slots i).owner = some c) (hs : (p.slots i).state = .closing)
    (hm : p.maintenance = some (.closeSlot i c)) (hlog : t.log = .closed c :: p.log)
    (hn : t.connections = p.connections) (hopened : t.opened = p.opened)
    (hslots : t.slots = Function.update p.slots i s)
    (hend : s.owner = none ∨ s.owner = some c ∧ s.state = .closeFailed)
    (hmt : t.maintenance = none) (hlife : t.lifecycle = p.lifecycle) : ConnectionsOk t := by
  have hdatabase : .closingDatabase ∉ p.log := fun hd => by
    have ho := h.allOver hd i hi
    rw [hs] at ho
    cases ho
  -- the slot gives its owner up, unless the close has failed; the others keep theirs
  have hother : ∀ j < p.connections, ∀ k, (t.slots j).owner = some k →
      (j = i ∧ k = c ∧ s.state = .closeFailed) ∨ j ≠ i ∧ k ≠ c ∧ (p.slots j).owner = some k := by
    intro j hj k hk
    rw [hslots] at hk
    by_cases hji : j = i
    · rw [hji, Function.update_self] at hk
      rcases hend with he | ⟨he, hf⟩
      · cases he.symm.trans hk
      · exact .inl ⟨hji, Option.some.inj (hk.symm.trans he), hf⟩
    · rw [Function.update_of_ne hji] at hk
      refine .inr ⟨hji, ?_, hk⟩
      rintro rfl
      exact hji (h.unique j hj i hi k hk hc)
  refine ⟨fun k => ?_, fun k hk => ?_, fun j hj k hk => ?_, fun j hj x hx k hjk hxk => ?_,
    fun j hj k hk => ?_, fun j hj k hk => ?_, fun k hk => ?_, fun k hk => ?_, ?_, fun hd => ?_⟩
  · rw [hlog, hopened, mem_cons_of_ne Event.noConfusion, h.opened]
  · rw [hlog, mem_cons_of_ne (e := .closing k) Event.noConfusion, List.mem_cons] at hk
    rw [hopened]
    rcases hk with hk | he | hk
    · exact h.bound k (.inl hk)
    · cases he
      exact h.owner i hi _ hc
    · exact h.bound k (.inr hk)
  · rw [hopened]
    rw [hn] at hj
    rcases hother j hj k hk with ⟨-, rfl, -⟩ | ⟨-, -, ho⟩
    · exact h.owner i hi _ hc
    · exact h.owner j hj k ho
  -- no two slots own one connection
  · rw [hn] at hj hx
    rcases hother j hj k hjk with ⟨rfl, rfl, -⟩ | ⟨hji, hne, ho⟩ <;>
      rcases hother x hx k hxk with ⟨rfl, hk, -⟩ | ⟨hxi, hne', ho'⟩
    · rfl
    · exact absurd rfl hne'
    · exact absurd hk hne
    · exact h.unique j hj x hx k ho ho'
  -- a failed close still counts as one, and `c` is now closed
  · rw [hn] at hj
    rw [hlog, mem_cons_of_ne Event.noConfusion]
    rcases hother j hj k hk with ⟨rfl, rfl, hf⟩ | ⟨hji, hne, ho⟩
    · rw [hslots, Function.update_self]
      exact iff_of_true ((h.closing j hj k hc).mpr (.inl hs)) (.inr hf)
    · rw [hslots, Function.update_of_ne hji]
      exact h.closing j hj k ho
  · rw [hn] at hj
    rw [hlog, List.mem_cons]
    rcases hother j hj k hk with ⟨rfl, rfl, hf⟩ | ⟨hji, hne, ho⟩
    · rw [hslots, Function.update_self]
      exact iff_of_true (.inl rfl) hf
    · rw [hslots, Function.update_of_ne hji, ← h.closed j hj k ho]
      exact or_iff_right fun he => hne (Event.closed.inj he)
  -- a connection that is not closed is still owned
  · rw [hlog, hn, List.mem_cons]
    by_cases hkc : k = c
    · exact .inl (.inl (congrArg _ hkc))
    · refine (h.kept k (hopened ▸ hk)).imp .inr ?_
      rintro ⟨j, hj, ho⟩
      refine ⟨j, hj, ?_⟩
      rw [hslots, Function.update_of_ne]
      · exact ho
      · rintro rfl
        exact hkc (Option.some.inj (ho.symm.trans hc))
  -- no other close was under way
  · rw [hlog, mem_cons_of_ne Event.noConfusion] at hk
    rw [hlog, List.mem_cons]
    rcases h.pending k hk with he | ⟨j, he⟩
    · exact .inl (.inr he)
    · cases hm.symm.trans he
      exact .inl (.inl rfl)
  · rw [hlog, mem_cons_of_ne Event.noConfusion, h.database, hm, hmt, hlife]
    exact or_congr_left (iff_of_false nofun nofun)
  · rw [hlog, mem_cons_of_ne Event.noConfusion] at hd
    exact absurd hd hdatabase

/-- A connection is opened. -/
theorem ConnectionsOk.connect {s : Slot X V} (h : ConnectionsOk p) (hi : i < p.connections)
    (hc : (p.slots i).owner = none) (hs : (p.slots i).state = .connecting)
    (hm : p.maintenance = some (.connect i)) (hlog : t.log = .opened p.opened :: p.log)
    (hn : t.connections = p.connections) (hopened : t.opened = p.opened + 1)
    (hslots : t.slots = Function.update p.slots i s) (howner : s.owner = some p.opened)
    (hstate : s.state ≠ .closing ∧ s.state ≠ .closeFailed) (hmt : t.maintenance = none)
    (hlife : t.lifecycle = p.lifecycle) : ConnectionsOk t := by
  have hdatabase : .closingDatabase ∉ p.log := fun hd => by
    have ho := h.allOver hd i hi
    rw [hs] at ho
    cases ho
  -- the slot owns a connection that did not exist, the others keep theirs
  have hother : ∀ j < p.connections, ∀ k, (t.slots j).owner = some k →
      j = i ∧ k = p.opened ∨ j ≠ i ∧ k < p.opened ∧ (p.slots j).owner = some k := by
    intro j hj k hk
    rw [hslots] at hk
    by_cases hji : j = i
    · rw [hji, Function.update_self, howner] at hk
      exact .inl ⟨hji, (Option.some.inj hk).symm⟩
    · rw [Function.update_of_ne hji] at hk
      exact .inr ⟨hji, h.owner j hj k hk, hk⟩
  refine ⟨fun k => ?_, fun k hk => ?_, fun j hj k hk => ?_, fun j hj x hx k hjk hxk => ?_,
    fun j hj k hk => ?_, fun j hj k hk => ?_, fun k hk => ?_, fun k hk => ?_, ?_, fun hd => ?_⟩
  · rw [hlog, hopened, List.mem_cons, h.opened, Event.opened.injEq]
    omega
  -- the new connection is neither closing nor closed
  · rw [hlog, mem_cons_of_ne Event.noConfusion, mem_cons_of_ne Event.noConfusion] at hk
    rw [hopened]
    exact Nat.lt_succ_of_lt (h.bound k hk)
  · rw [hn] at hj
    rcases hother j hj k hk with ⟨-, rfl⟩ | ⟨-, hlt, -⟩ <;> omega
  -- no two slots own one connection
  · rw [hn] at hj hx
    rcases hother j hj k hjk with ⟨rfl, rfl⟩ | ⟨hji, hlt, ho⟩ <;>
      rcases hother x hx _ hxk with ⟨rfl, hk⟩ | ⟨hxi, hlt', ho'⟩
    · rfl
    · exact absurd hlt' (lt_irrefl _)
    · exact absurd hk hlt.ne
    · exact h.unique j hj x hx k ho ho'
  · rw [hn] at hj
    rw [hlog, mem_cons_of_ne Event.noConfusion]
    rcases hother j hj k hk with ⟨rfl, rfl⟩ | ⟨hji, hlt, ho⟩
    · rw [hslots, Function.update_self]
      exact iff_of_false (fun hm => lt_irrefl _ (h.bound _ (.inl hm)))
        (not_or.mpr hstate)
    · rw [hslots, Function.update_of_ne hji]
      exact h.closing j hj k ho
  · rw [hn] at hj
    rw [hlog, mem_cons_of_ne Event.noConfusion]
    rcases hother j hj k hk with ⟨rfl, rfl⟩ | ⟨hji, hlt, ho⟩
    · rw [hslots, Function.update_self]
      exact iff_of_false (fun hm => lt_irrefl _ (h.bound _ (.inr hm))) hstate.2
    · rw [hslots, Function.update_of_ne hji]
      exact h.closed j hj k ho
  -- a connection that is not closed is still owned
  · rw [hlog, hn, mem_cons_of_ne Event.noConfusion]
    by_cases hkc : k = p.opened
    · refine .inr ⟨i, hi, ?_⟩
      rw [hslots, Function.update_self, howner, hkc]
    · refine (h.kept k (by omega)).imp_right ?_
      rintro ⟨j, hj, ho⟩
      refine ⟨j, hj, ?_⟩
      rw [hslots, Function.update_of_ne]
      · exact ho
      · rintro rfl
        cases hc.symm.trans ho
  · rw [hlog, mem_cons_of_ne Event.noConfusion] at hk
    rw [hlog, mem_cons_of_ne Event.noConfusion]
    refine .inl ((h.pending k hk).resolve_right ?_)
    rintro ⟨j, he⟩
    cases hm.symm.trans he
  · rw [hlog, mem_cons_of_ne Event.noConfusion, h.database, hm, hmt, hlife]
    exact or_congr_left (iff_of_false nofun nofun)
  · rw [hlog, mem_cons_of_ne Event.noConfusion] at hd
    exact absurd hd hdatabase

theorem Change.connectionsOk (h : Change p b t) (hc : Core none p) (ho : ConnectionsOk p) :
    ConnectionsOk t := by
  have hrequest : ∀ {e k : Event} {l : List Event}, k.ofRequest = true → e.ofRequest = false →
      (e ∈ k :: l ↔ e ∈ l) := fun hk he => mem_cons_of_not_ofRequest he hk
  cases h with
  -- requests and their work leave the connections as they are
  | join | latch | cleanup | poolFailure =>
    exact ho.same (fun _ _ => .rfl) rfl rfl (fun _ => .refl _) (fun _ _ => id) .rfl .rfl
  | withdraw | refuse =>
    exact ho.same (fun _ he => hrequest rfl he) rfl rfl (fun _ => .refl _) (fun _ _ => id) .rfl .rfl
  | @serveNew i c operation hi hs hl hown hq =>
    exact ho.same (fun e he => hrequest rfl he) rfl rfl
      (SameConnection.update (s := (p.slots i).give p.admitted c operation)
        (.become rfl (hs ▸ by decide) ⟨nofun, nofun⟩)) (fun _ _ => id) .rfl .rfl
  | @serve i c r rest operation hi hs hl hown hq =>
    exact ho.same (fun e he => hrequest rfl he) rfl rfl
      (SameConnection.update (s := (p.slots i).give r c operation)
        (.become rfl (hs ▸ by decide) ⟨nofun, nofun⟩)) (fun _ _ => id) .rfl .rfl
  | @enter i w hi hw ha hg =>
    exact ho.same (fun e he => hrequest rfl he) rfl rfl
      (SameConnection.update (s := (p.slots i).reach .running) (.of_state rfl rfl))
      (fun _ _ => id) .rfl .rfl
  | @bypass i w hi hw ha hg =>
    exact ho.same (fun _ _ => .rfl) rfl rfl
      (SameConnection.update (s := (p.slots i).reach _) (.of_state rfl rfl))
      (fun _ _ => id) .rfl .rfl
  | @leave i w result hi hw ha =>
    exact ho.same (fun _ _ => .rfl) rfl rfl
      (SameConnection.update (s := (p.slots i).reach _) (.of_state rfl rfl))
      (fun _ _ => id) .rfl .rfl
  | @abandon i w x hi hw ha =>
    exact ho.same (fun _ _ => .rfl) rfl rfl
      (SameConnection.update (s := (p.slots i).reach _) (.of_state rfl rfl))
      (fun _ _ => id) .rfl .rfl
  | @settle i w result a hi hw hstage ha =>
    have hs : (p.slots i).state ≠ .closing ∧ (p.slots i).state ≠ .closeFailed ∧
        (p.slots i).state.over = false := by
      rw [(hc.of_work hi hw).1]
      decide
    have hnew : a ≠ .closing ∧ a ≠ .closeFailed := by
      rcases ha with rfl | ⟨rfl, -⟩ <;> decide
    refine ho.same (fun _ _ => .rfl) rfl rfl (fun j => ?_) (fun _ _ => id) .rfl .rfl
    rw [Pool.slots_settling]
    refine .update ?_ j
    exact .become rfl hs hnew
  | @finishLease i r outcome hi hs hl hout =>
    exact ho.same (fun e he => hrequest rfl he) rfl rfl
      (SameConnection.update (s := (p.slots i).release) (.of_state rfl rfl))
      (fun _ _ => id) .rfl .rfl
  | @drain i hi hs hlife =>
    exact ho.same (fun _ _ => .rfl) rfl rfl
      (SameConnection.update (s := (p.slots i).become .needsClose)
        (.become rfl (hs ▸ by decide) ⟨nofun, nofun⟩)) (fun _ _ => id) .rfl .rfl
  | @skip i hi hs hlife =>
    exact ho.same (fun _ _ => .rfl) rfl rfl
      (SameConnection.update (s := (p.slots i).become .closed)
        (.become rfl (hs ▸ by decide) ⟨nofun, nofun⟩)) (fun _ _ => id) .rfl .rfl
  -- the maintenance of a slot changes what it owns
  | @startClose i c hi hs hown hm =>
    exact ho.close hi hown hs hm rfl rfl rfl rfl hown rfl rfl rfl
  | @startConnect i hi hs hm =>
    refine ho.same (fun _ _ => .rfl) rfl rfl
      (SameConnection.update (s := (p.slots i).become .connecting)
        (.become rfl (hs ▸ by decide) ⟨nofun, nofun⟩)) (fun j c he => ?_) ?_ .rfl
    · cases hm.symm.trans he
    · rw [hm]
      exact iff_of_false nofun nofun
  -- the database is closed when every slot is over
  | startDatabase hlife hover hm =>
    refine ⟨fun k => (mem_cons_of_ne Event.noConfusion).trans (ho.opened k), fun k hk => ?_,
      ho.owner, ho.unique,
      fun j hj k hk => (mem_cons_of_ne Event.noConfusion).trans (ho.closing j hj k hk),
      fun j hj k hk => (mem_cons_of_ne Event.noConfusion).trans (ho.closed j hj k hk),
      fun k hk => (ho.kept k hk).imp_left (List.mem_cons_of_mem _), fun k hk => .inl ?_,
      iff_of_true List.mem_cons_self (.inl rfl), fun _ => hover⟩
    · exact ho.bound k (hk.imp (mem_cons_of_ne Event.noConfusion).mp
        (mem_cons_of_ne Event.noConfusion).mp)
    · refine List.mem_cons_of_mem _ ((ho.pending k
        ((mem_cons_of_ne Event.noConfusion).mp hk)).resolve_right ?_)
      rintro ⟨j, he⟩
      cases hm.symm.trans he
  | @closed i c a hm ha =>
    obtain ⟨hi, hs, hown⟩ := hc.of_closeSlot hm
    exact ho.retire hi hown hs hm rfl rfl rfl (slots_closed i c a p) (.inl rfl) rfl rfl
  | @closeFailed i c hm =>
    obtain ⟨hi, hs, hown⟩ := hc.of_closeSlot hm
    exact ho.retire hi hown hs hm rfl rfl rfl rfl (.inr ⟨hown, rfl⟩) rfl rfl
  | @connected i a hm ha =>
    obtain ⟨hi, hs, hown⟩ := hc.of_connect hm
    have hnew : a ≠ .closing ∧ a ≠ .closeFailed := by
      rcases ha with ⟨rfl, -⟩ | ⟨rfl, -⟩ <;> decide
    exact ho.connect hi hown hs hm rfl rfl rfl (slots_connected i a p) rfl hnew rfl rfl
  | @connectFailed i hm =>
    have hs := (hc.of_connect hm).2.1
    refine ho.same (fun _ _ => .rfl) rfl rfl
      (SameConnection.update (s := (p.slots i).become .closed)
        (.become rfl (hs ▸ by decide) ⟨nofun, nofun⟩)) (fun j c he => ?_) ?_ .rfl
    · cases hm.symm.trans he
    · rw [hm]
      exact iff_of_false nofun nofun
  | databaseClosed result released hm hlife =>
    refine ⟨ho.opened, ho.bound, ho.owner, ho.unique, ho.closing, ho.closed, ho.kept,
      fun k hk => .inl ((ho.pending k hk).resolve_right ?_),
      iff_of_true (ho.database.mpr (.inl hm)) (.inr rfl), ho.allOver⟩
    rintro ⟨j, he⟩
    cases hm.symm.trans he
  | beginStop hlife =>
    refine ho.same (fun _ _ => .rfl) rfl rfl (fun _ => .refl _) (fun _ _ => id) .rfl ?_
    rw [hlife]
    exact iff_of_false nofun nofun
  | slotFailure i f =>
    exact ho.same (fun _ _ => .rfl) rfl rfl
      (SameConnection.update (s := (p.slots i).addFailure f) (.of_state rfl rfl))
      (fun _ _ => id) .rfl .rfl

end DuckdbMl.AsyncPool
