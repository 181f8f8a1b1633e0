import Supervisor.World.Sweep

/-!
# Operations

Everything that a supervisor can be asked to do, as data, and `World.perform`, which does it. Asking
what a proxy or the pool holds changes nothing and needs no operation.
-/

set_option autoImplicit false
set_option relaxedAutoImplicit false

namespace Supervisor

inductive Operation
  | edit (h : Handle) (e : Edit)
  | reset (h : Handle)
  | terminate (h : Handle)
  | setServer (h : Handle) (pid : Pid)
  | changePriority (h : Handle) (delta : Int32)
  | setRoundRobin (h : Handle) (on : Bool)
  | send (h : Handle) (m : Message)
  | sendStaged (h : Handle) (kind : PayloadKind)
  | requestShutdown (h : Handle) (delay : Duration) (enable : Bool)
  | setInflate (h : Handle) (factor : Int32) (sendOver : Bool)
  | verifyAlive (h : Handle) (timeout : Duration)
  | acquire
  | release (id : SessionId)
  | moveClient (source target : SessionId) (slot : Nat)
  | sweep
  | runDue (now : Instant)
  /-- Lets time go by. -/
  | elapse (span : Duration)

/-- What an operation is answered with. -/
inductive Answer
  | edited (answer : Edit.Answer)
  | done
  | outcome (result : Except Fault Unit)
  | priority (result : Except Fault Int32)
  | sent (result : Except Fault Bool)
  | acquired (result : Except Fault Handle)
  | moved (result : Except Fault Nat)
  | swept (report : List (SessionId × Verdict))
  | expired (result : Except ClockFault (List (SessionId × Except Fault Unit)))
deriving DecidableEq

namespace World

variable {σ : Type}

def answering {α : Type} (f : α → Answer) (result : α × World σ) : Answer × World σ :=
  (f result.1, result.2)

def perform (host : Host σ) (op : Operation) (w : World σ) : Answer × World σ :=
  let control := host.toProcessControl
  match op with
  | .edit h e => answering .edited (w.edit h e)
  | .reset h => (.done, w.reset h)
  | .terminate h => answering .outcome (w.terminate control h)
  | .setServer h pid => (.done, w.setServer control h pid)
  | .changePriority h delta => answering .priority (w.changePriority control h delta)
  | .setRoundRobin h on => answering .outcome (w.setRoundRobin control h on)
  | .send h m => answering .outcome (w.send host h (w.session h).channel m)
  | .sendStaged h kind => answering .sent (w.sendStaged host h kind)
  | .requestShutdown h delay enable =>
    answering .outcome (w.requestShutdown host h delay enable)
  | .setInflate h factor sendOver => answering .outcome (w.setInflate host h factor sendOver)
  | .verifyAlive h timeout => answering .outcome (w.verifyAlive host h timeout)
  | .acquire => answering .acquired w.acquire
  | .release id => answering .outcome (w.release id)
  | .moveClient source target slot => answering .moved (w.moveClient source target slot)
  | .sweep => answering .swept (w.sweep host)
  | .runDue now => answering .expired (w.runDue control now)
  | .elapse span => (.done, { w with now := w.now.later span })

end World

end Supervisor
