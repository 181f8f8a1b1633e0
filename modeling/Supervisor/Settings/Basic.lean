import Supervisor.Clock
import Supervisor.Worker.Schedule
import Supervisor.Worker.Signal

/-!
# Settings of a supervisor

What every session and the pool are given when they are made.
-/

set_option autoImplicit false
set_option relaxedAutoImplicit false

namespace Supervisor

structure Settings where
  pingTimeout : Duration
  /-- Pings without a reply after which a worker counts as dead. -/
  pingAttempts : UInt32
  terminateSignal : Signal
  /-- Static priority under round-robin scheduling. -/
  roundRobinPriority : Int32
  /-- Scheduling to go back to when a worker's own could not be read. -/
  schedule : Schedule
  maxSessions : Nat
deriving DecidableEq

def Settings.standard : Settings where
  pingTimeout := Duration.ofSeconds 5
  pingAttempts := 3
  terminateSignal := Signal.terminate
  roundRobinPriority := 1
  schedule := Schedule.standard
  maxSessions := 100

end Supervisor
