import Supervisor.World.Pool
import Supervisor.World.Sending

/-!
# Rounds of the pool

`sweep` checks every valid session that is handed out: a worker whose process is gone is terminated
without a ping, one that does not answer in time is pinged again up to the number of attempts in the
settings, and one that cannot be reached is terminated. `runDue` terminates the valid sessions whose
shutdown is due. Both go through the sessions in the order of their slots.
-/

set_option autoImplicit false
set_option relaxedAutoImplicit false

namespace Supervisor

/-- What a sweep found out about a session. -/
inductive Verdict
  | alive (attempts : Nat)
  | terminated (cause : Fault) (signal : Except Fault Unit)
  | skipped (cause : Fault)
deriving DecidableEq

namespace World

variable {σ : Type}

def condemn (control : ProcessControl σ) (h : Handle) (cause : Fault) (w : World σ) :
    Verdict × World σ :=
  let (signal, w) := w.terminate control h
  (.terminated cause signal, w)

/-- Pings a session, and after a timeout again as often as there are retries. Attempts are counted
from `attempt`. -/
def pingWithRetries (host : Host σ) (h : Handle) (retries attempt : Nat) (w : World σ) :
    Verdict × World σ :=
  match w.verifyAlive host h w.settings.pingTimeout with
  | (.ok (), w) => (.alive attempt, w)
  | (.error cause, w) =>
    match cause, retries with
    | .timeout _, retries + 1 => w.pingWithRetries host h retries (attempt + 1)
    | cause, _ =>
      if cause = .invalid ∨ cause.isFatal = false then (.skipped cause, w)
      else w.condemn host.toProcessControl h cause
termination_by retries

/-- Looks for the worker's process, if one is recorded, and then pings. -/
def check (host : Host σ) (h : Handle) (w : World σ) : Verdict × World σ :=
  let retries := w.settings.pingAttempts.toNat - 1
  match (w.session h).pid with
  | none => w.pingWithRetries host h retries 1
  | some pid =>
    match w.call (.probed h pid) (host.alive pid) with
    | (false, w) => w.condemn host.toProcessControl h .noSuchProcess
    | (true, w) => w.pingWithRetries host h retries 1

def sweepOver (host : Host σ) : List Handle → World σ → List (SessionId × Verdict) × World σ
  | [], w => ([], w)
  | h :: hs, w =>
    if (w.session h).valid then
      let id := (w.session h).id
      let (verdict, w) := w.check host h
      let (report, w) := sweepOver host hs w
      ((id, verdict) :: report, w)
    else sweepOver host hs w

/-- Checks every session that is handed out at the start and still valid when its turn comes. -/
def sweep (host : Host σ) (w : World σ) : List (SessionId × Verdict) × World σ :=
  w.sweepOver host w.active

/-- Whether the shutdown asked for of a session is due. -/
def isDue (w : World σ) (now : Instant) (h : Handle) : Except ClockFault Bool :=
  match (w.session h).intent with
  | none => .ok false
  | some intent => intent.isDue now

def dueAmong (w : World σ) (now : Instant) : List Handle → Except ClockFault (List Handle)
  | [] => .ok []
  | h :: hs => do
    let due ← w.isDue now h
    let rest ← w.dueAmong now hs
    return if due && (w.session h).valid then h :: rest else rest

/-- The valid sessions whose shutdown is due. -/
def due (now : Instant) (w : World σ) : Except ClockFault (List Handle) :=
  w.dueAmong now w.active

def terminateAll (control : ProcessControl σ) :
    List Handle → World σ → List (SessionId × Except Fault Unit) × World σ
  | [], w => ([], w)
  | h :: hs, w =>
    let id := (w.session h).id
    let (outcome, w) := w.terminate control h
    let (report, w) := terminateAll control hs w
    ((id, outcome) :: report, w)

/-- Terminates the sessions that are due. -/
def runDue (control : ProcessControl σ) (now : Instant) (w : World σ) :
    Except ClockFault (List (SessionId × Except Fault Unit)) × World σ :=
  match w.due now with
  | .error fault => (.error fault, w)
  | .ok hs =>
    let (report, w) := w.terminateAll control hs
    (.ok report, w)

end World

end Supervisor
