import Supervisor.Clock
import Supervisor.Errno
import Supervisor.Wire.Frame

/-!
# Why an operation fails

Every failure is a value. `IoFault` is a failure of a stream; `Fault` is what operations on
sessions, on the pool and on worker processes report, with a wording of its own in `Fault.message`.
A fault is fatal to a session when it means that the worker cannot be reached any more.
-/

set_option autoImplicit false
set_option relaxedAutoImplicit false

namespace Supervisor

instance decidableEqExcept {ε α : Type} [DecidableEq ε] [DecidableEq α] : DecidableEq (Except ε α)
  | .ok a, .ok b => decidable_of_iff (a = b) (by simp)
  | .error a, .error b => decidable_of_iff (a = b) (by simp)
  | .ok _, .error _ => isFalse (by simp)
  | .error _, .ok _ => isFalse (by simp)

/-- Number that a session carries; in the pool, the index of its slot. -/
abbrev SessionId := Int16

inductive IoFault
  | system (errno : Errno)
  | wire (fault : Wire.Fault)
  | described (text : String)
deriving DecidableEq

def IoFault.message : IoFault → String
  | .system errno => errno.streamText
  | .wire fault => fault.message
  | .described text => text

inductive Fault
  | invalid
  | noLink
  | timeout (span : Duration)
  | transport (fault : IoFault)
  | noSuchProcess
  | permissionDenied (what : String)
  | os (errno : Errno)
  | alreadyTerminated
  | unknownSession (id : SessionId)
  | poolExhausted (sessions : Nat)
deriving DecidableEq

namespace Fault

def message : Fault → String
  | .invalid => "session is not valid"
  | .noLink => "no link to the session worker"
  | .timeout span => "worker did not reply within " ++ span.text
  | .transport fault => "transport error: " ++ fault.message
  | .noSuchProcess => "no such process"
  | .permissionDenied what => "permission denied: " ++ what
  | .os errno => "os error: " ++ errno.symbolText
  | .alreadyTerminated => "session already terminated"
  | .unknownSession id => "unknown session " ++ toString id.toInt
  | .poolExhausted sessions => "session pool exhausted (" ++ toString sessions ++ " sessions)"

/-- What a refused call of process control means; `what` names the call. -/
def ofErrno (errno : Errno) (what : String) : Fault :=
  if errno = .noProcess then .noSuchProcess
  else if errno = .notPermitted ∨ errno = .accessDenied then .permissionDenied what
  else .os errno

/-- Whether the worker cannot be reached any more. -/
def isFatal : Fault → Bool
  | .timeout _ | .transport _ | .noSuchProcess | .noLink | .invalid => true
  | _ => false

end Fault

/-- An armed deadline that the clock cannot show. -/
inductive ClockFault
  | overflow
deriving DecidableEq

def ClockFault.message : ClockFault → String
  | .overflow => "overflow when adding duration to instant"

end Supervisor
