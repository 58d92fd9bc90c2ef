import DuckdbMl.Delivery.Stubs
import DuckdbMl.Transition.History
import DuckdbMl.Transition.System
import Mathlib.Logic.Function.Basic

/-!
# The worker and the controller of a connection

One worker at a time runs the stubs of a connection, one after the other. For a request it creates
a native request, installs it and starts the controller of it; it joins the controller before it
uninstalls the request, and closes the connection only without one. The controller reserves the
delivery of a cancellation, interrupts the engine, and retires the delivery, until it is stopped.
Any thread may cancel a request at any time.

That there is one worker is an assumption on the callers of the stubs, which a lend or a forced
close of a cached statement may break (`Resource.exclusion_violated`).

A thread that enters a section takes the guard in one step and leaves it in another. The runtime is
a lock as well: the controller runs only with it, the worker releases it around its work. A fatal
error, and a failure of an assertion of the library, has no next state.

## Main definitions

* `World`: the native owner with its requests, and where its threads are
* `Worker.step`, `Controller.step`: what they do next
* `system`: a connection under any order of these; its failed state is `none`
-/

namespace DuckdbMl.Delivery

inductive Thread
  | worker
  | controller
  | other
  deriving DecidableEq, Repr

/-- What is recorded: which request is installed, the cancellations, the calls that are admitted and
their ends, the functions of the engine that are called, and the interrupts. -/
inductive Event
  | installed (r : ℕ)
  | uninstalled (r : ℕ)
  | cancelled (r : ℕ)
  | admitted (interruptible : Bool)
  | suppressed
  | ended
  | entered (c : Call)
  | returned (c : Call)
  | interrupted (r : ℕ)
  deriving DecidableEq, Repr

/-- Between two stubs, in a stub (in a section or waiting for it), or in a function of the
engine. -/
inductive Worker
  | ready
  | running (locked : Bool) (k : Code)
  | calling (c : Call) (k : Answer → Code)

/-- The request that the worker works for: created, installed, with a controller, with one that has
been told to stop, with one that has ended, and uninstalled. -/
inductive Session
  | free
  | prepared (r : ℕ)
  | installed (r : ℕ)
  | leased (r : ℕ)
  | stopping (r : ℕ)
  | joined (r : ℕ)
  | detached (r : ℕ)
  | closed
  deriving DecidableEq, Repr

/-- Where the controller is; in `reserving` and `interrupting` it has the guard. -/
inductive Position
  | test
  | reserve
  | reserving
  | deliver
  | interrupting
  | retire
  deriving DecidableEq, Repr

structure World where
  guard : Option Thread
  runtime : Option Thread
  owner : Owner
  requests : ℕ → Request
  created : ℕ
  worker : Worker
  session : Session
  controller : Option (ℕ × Position)
  log : List Event

namespace World

def record (e : Event) (w : World) : World := { w with log := e :: w.log }

def setRequest (r : ℕ) (q : Request) (w : World) : World :=
  { w with requests := Function.update w.requests r q }

def latched (w : World) (r : ℕ) : Bool := (w.requests r).cancelled

end World

/-! ### The worker -/

/-- How the next section enters the guard, when the code is at one. -/
def Code.guarded : Code → Option Runtime
  | .workBegin _ | .workEnd _ | .callBegin .. | .callEnd _ => some .released
  | .cleanupBegin runtime _ | .cleanupEnd runtime _ | .closeBegin runtime _ => some runtime
  | .done | .enterBlocking _ | .leaveBlocking _ | .call .. => none

/-- What a section does to the owner, how the stub goes on, and what is recorded. -/
def Code.inGuard (latched : ℕ → Bool) (o : Owner) : Code → Option (Owner × Code × List Event)
  | .workBegin k => (Delivery.workBegin o).map (·, k, [])
  | .workEnd k => (Delivery.workEnd o).map (·, k, [.ended])
  | .callBegin interruptible k =>
    (Delivery.callBegin interruptible latched o).map fun (a, o) =>
      (o, k a, match a with
        | .admitted => [.admitted interruptible]
        | .cancelled => [.suppressed])
  | .callEnd k => some (Delivery.callEnd o, k, [.ended])
  | .cleanupBegin runtime k => (Delivery.cleanupBegin runtime o).map (·, k, [.ended])
  | .cleanupEnd _ k => (Delivery.cleanupEnd o).map (·, k, [])
  | .closeBegin _ k => (Delivery.closeBegin o).map (·, k, [])
  | .done | .enterBlocking _ | .leaveBlocking _ | .call .. => none

/-- Whether there is a connection of the engine after a call. -/
def Call.connects (c : Call) (a : Answer) (connected : Bool) : Bool :=
  match c with
  | .connect => a.object
  | .disconnect => false
  | _ => connected

namespace World

/-- A section is entered: a caller that has released the runtime waits for the guard, and one that
has it may not. -/
def lock (runtime : Runtime) (k : Code) (w : World) : Option (Option World) :=
  match w.guard, runtime with
  | none, _ => some (some { w with guard := some .worker, worker := .running true k })
  -- `native_lock` ends the program
  | some _, .held => some none
  | some _, .released => none

def unlock (k : Code) (w : World) : Option (Option World) :=
  some ((k.inGuard w.latched w.owner).map fun (o, k, es) =>
    { w with guard := none, owner := o, worker := .running false k, log := es ++ w.log })

/-- The next step of a stub; `answer` is what a call of the engine answers that returns. -/
def work (answer : Answer) (w : World) : Option (Option World) :=
  match w.worker with
  | .ready => none
  | .running false .done => some (some { w with worker := .ready })
  | .running false (.enterBlocking k) =>
    some (some { w with runtime := none, worker := .running false k })
  | .running false (.leaveBlocking k) =>
    if w.runtime = none then
      some (some { w with runtime := some .worker, worker := .running false k })
    else none
  | .running false (.call c k) =>
    some (some ({ w with worker := .calling c k }.record (.entered c)))
  | .running false k => k.guarded.bind fun runtime => w.lock runtime k
  | .running true k => w.unlock k
  | .calling c k =>
    some (some ({ w with
      worker := .running false (k answer)
      owner.connected := c.connects answer w.owner.connected }.record (.returned c)))

end World

/-! ### The controller -/

namespace World

def at_ (r : ℕ) (p : Position) (w : World) : World := { w with controller := some (r, p) }

/-- The next step of the controller of `r`, which has the runtime. -/
def control (r : ℕ) (p : Position) (w : World) : Option World :=
  match p with
  | .test =>
    if (w.requests r).stop then some { w with controller := none, runtime := none }
    else some (w.at_ r .reserve)
  | .reserve =>
    -- the controller never waits for the guard: it comes again
    if (w.requests r).disposed || !(w.requests r).owner || w.guard.isSome then some (w.at_ r .test)
    else some ({ w with guard := some .controller }.at_ r .reserving)
  | .reserving =>
    match reserveDelivery r (w.requests r) w.owner with
    | (.reserved, q) => some (({ w with guard := none }.setRequest r q).at_ r .deliver)
    | (.ineligible, q) => some (({ w with guard := none }.setRequest r q).at_ r .test)
    -- the sole controller owns the reservation
    | (.pending, _) => none
  | .deliver =>
    -- without its reservation the controller fails
    if (w.requests r).disposed || !(w.requests r).reserved then none
    else if !(w.requests r).owner || w.guard.isSome then some (w.at_ r .retire)
    else some ({ w with guard := some .controller }.at_ r .interrupting)
  | .interrupting =>
    match tryInterrupt r (w.requests r) w.owner with
    | .delivered => some (({ w with guard := none }.at_ r .retire).record (.interrupted r))
    | .skipped => some ({ w with guard := none }.at_ r .retire)
    | .notReserved => none
  | .retire =>
    some ((w.setRequest r { w.requests r with reserved := false }).at_ r .test)

end World

/-! ### The library -/

/-- The stubs that close a connection. -/
def Stub.closes : Stub → Bool
  | .closeConnection .. => true
  | .finishConnectionClose last .. | .finishPreparedClose _ last .. => last
  | .finishAppenderClose _ _ last .. => last
  | _ => false

/-- The stubs that are run on a connection that is closing. -/
def Stub.quiet : Stub → Bool
  | .clearWork _ | .closeResult _ | .finishResultClose _ | .closePrepared _
  | .finishPreparedClose .. | .finishAppenderClose .. | .closeConnection ..
  | .finishConnectionClose .. => true
  | .closeAppender _ flush _ => !flush
  | _ => false

/-- The session after the start of a stub. A connection is closed without a request. -/
def Session.start (stub : Stub) : Session → Option Session
  | .free => some (if stub.closes then .closed else .free)
  | .leased r => if stub.closes then none else some (.leased r)
  | .joined r => if stub.closes then none else some (.joined r)
  | .closed => if stub.quiet then some .closed else none
  | .prepared _ | .installed _ | .stopping _ | .detached _ => none

inductive Label
  | take (t : Thread)
  | give (t : Thread)
  | cancel (r : ℕ)
  | create
  | install
  | spawn
  | start (stub : Stub)
  | work (answer : Answer)
  | stop
  | join
  | uninstall
  | dispose
  | control
  deriving DecidableEq, Repr

/-- A thread that waits for the runtime outside of the stubs. -/
def World.waits (w : World) : Thread → Bool
  | .worker => match w.worker with
    | .ready => true
    | .running .. | .calling .. => false
  | .controller => w.controller.isSome
  | .other => true

/-- A thread that may give up the runtime where it is. -/
def World.yields (w : World) : Thread → Bool
  | .worker => w.waits .worker
  | .controller => match w.controller with
    -- its sections are stubs that keep the runtime
    | some (_, .reserving) | some (_, .interrupting) => false
    | _ => true
  | .other => true

def World.cancel (r : ℕ) (w : World) : World :=
  if (w.requests r).disposed then w
  else (w.setRequest r { w.requests r with cancelled := true }).record (.cancelled r)

/-- What the library does between two stubs, with the runtime. -/
def World.manage (w : World) : Label → Option (Option World)
  | .create =>
    match w.session with
    | .free => some (some { w with
        requests := Function.update w.requests w.created Request.created
        created := w.created + 1
        session := .prepared w.created })
    | _ => none
  | .install =>
    match w.session with
    | .prepared r =>
      match install w.guard.isSome r (w.requests r) w.owner with
      | (.installed, q, o) => some (some (({ w with owner := o, session := .installed r }.setRequest
          r q).record (.installed r)))
      | (.used, _) => some none
      -- the caller gets an error; the request stays prepared until it is given up
      | _ => some (some w)
    | _ => none
  | .spawn =>
    match w.session with
    | .installed r => some (some { w with session := .leased r, controller := some (r, .test) })
    | _ => none
  | .start stub => (w.session.start stub).map fun session =>
    some { w with session := session, worker := .running false stub.code }
  | .stop =>
    match w.session with
    | .installed r | .leased r => some (some ({ w with session := .stopping r }.setRequest r
        { w.requests r with stop := true }))
    | _ => none
  | .join =>
    match w.session, w.controller with
    | .stopping r, none => some (some { w with session := .joined r })
    | _, _ => none
  | .uninstall =>
    match w.session with
    | .joined r | .prepared r =>
      some (match uninstall w.guard.isSome r (w.requests r) w.owner with
        | some (.uninstalled, q, o) =>
          some (({ w with owner := o, session := .detached r }.setRequest r q).record
            (.uninstalled r))
        | some (.notInstalled, _) => some { w with session := .detached r }
        -- the invariant bug that the library reports
        | _ => none)
    | _ => none
  | .dispose =>
    match w.session with
    | .detached r => some ((dispose (w.requests r)).map fun q =>
        { w with session := .free }.setRequest r q)
    | _ => none
  | _ => none

def World.step (w : World) : Label → Option (Option World)
  | .take t =>
    if w.runtime = none ∧ w.waits t then some (some { w with runtime := some t }) else none
  | .give t =>
    if w.runtime = some t ∧ w.yields t then some (some { w with runtime := none }) else none
  | .cancel r => if r < w.created then some (some (w.cancel r)) else none
  | .work answer => w.work answer
  | .control =>
    match w.controller with
    | some (r, p) => if w.runtime = some .controller then some (w.control r p) else none
    | none => none
  | l => if w.runtime = some .worker ∧ w.waits .worker then w.manage l else none

/-- A connection that has just been allocated. -/
def World.initial : World where
  guard := none
  runtime := none
  owner := ⟨none, .idle, false, false, 0, false⟩
  requests _ := Request.created
  created := 0
  worker := .ready
  session := .free
  controller := none
  log := []

/-- A connection with its worker and its controllers; it has failed when there is no state left. -/
def system : Transition.System (Option World) Label where
  start s := s = some World.initial
  step s l := s.bind fun w => w.step l

end DuckdbMl.Delivery
