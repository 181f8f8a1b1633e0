import Supervisor.Session.Basic

/-!
# Proxies

A `Proxy` holds one session after another. Pings are counted beside the session, so that none of a
proxy is ever mistaken for another, and a reply that has been delivered stays with the one who waits
for it even when the session is cleared in between.

A ping that has been opened is *pending* while it is in `session.pings` and *answered* while it is
in `replies`. `awaitPing` tells these cases and the rest apart; the timeout that it stands for has
no other effect, since nothing happens to a proxy while one waits. Who opens a ping waits for it and
gives it up, and nobody else: `callers` are the pings that were opened for someone outside.
-/

set_option autoImplicit false
set_option relaxedAutoImplicit false

namespace Supervisor

structure Proxy where
  settings : Settings
  session : Session
  /-- Number of pings opened so far. -/
  opened : Nat := 0
  /-- Pings whose reply was delivered and not yet collected. -/
  replies : List Ping := []
  /-- Pings opened for a caller who has not given them up. -/
  callers : List Ping := []
deriving DecidableEq

/-- How waiting for a ping ends. -/
inductive Awaited
  | answered
  | timedOut
  | disconnected
deriving DecidableEq

namespace Proxy

def new (settings : Settings) (createdAt : Calendar.Timestamp) : Proxy where
  settings := settings
  session := Session.new settings createdAt

def modify (f : Session → Session) (p : Proxy) : Proxy :=
  { p with session := f p.session }

/-- Clears the session for the next one. -/
def reset (createdAt : Calendar.Timestamp) (p : Proxy) : Proxy :=
  { p with session := Session.new p.settings createdAt }

/-- Registers a new ping. -/
def openPing (p : Proxy) : Ping × Proxy :=
  let ping : Ping := ⟨p.opened⟩
  (ping, { p with opened := p.opened + 1, session := p.session.register ping })

/-- Forgets a ping, and says whether it was pending. -/
def deletePing (id : PingId) (p : Proxy) : Bool × Proxy :=
  ((p.session.pending? id).isSome, p.modify (Session.forget id))

/-- Delivers a reply, and says whether its ping was pending. -/
def deliver (id : PingId) (p : Proxy) : Bool × Proxy :=
  match p.session.pending? id with
  | none => (false, p)
  | some ping => (true, { p.modify (Session.forget id) with replies := ping :: p.replies })

/-- Takes away a reply that was delivered. -/
def collect (ping : Ping) (p : Proxy) : Proxy :=
  { p with replies := p.replies.filter fun other ↦ other ≠ ping }

/-- Waits for a reply and collects it if there is one. -/
def awaitPing (ping : Ping) (p : Proxy) : Awaited × Proxy :=
  if ping ∈ p.replies then (.answered, p.collect ping)
  else if ping ∈ p.session.pings then (.timedOut, p)
  else (.disconnected, p)

/-- Gives up a ping together with a reply that nobody will collect any more. -/
def dropPing (ping : Ping) (p : Proxy) : Proxy :=
  (p.modify (Session.forget ping.id)).collect ping

/-- Opens a ping for a caller. -/
def openPingForCaller (p : Proxy) : Ping × Proxy :=
  let (ping, p) := p.openPing
  (ping, { p with callers := ping :: p.callers })

/-- Waits on behalf of the caller that a ping was opened for. -/
def awaitCallersPing (ping : Ping) (p : Proxy) : Awaited × Proxy :=
  if ping ∈ p.callers then p.awaitPing ping else (.disconnected, p)

/-- Gives up the ping of a caller. -/
def dropCallersPing (ping : Ping) (p : Proxy) : Proxy :=
  if ping ∈ p.callers then
    { p.dropPing ping with callers := p.callers.filter fun other ↦ other ≠ ping }
  else p

/-- Takes in a message from the worker. Only replies and status messages are expected. -/
def handle (m : Message) (p : Proxy) : Proxy :=
  match m with
  | .pingReply id => (p.deliver id).2
  | .status code => p.modify fun s ↦ { s with status := code }
  | _ => p

/-- Takes in messages until the source has no complete frame left, and counts them. Any other fault
is reported, and the messages before it stay taken in. -/
def route (source : Wire.Source) (p : Proxy) : Except Wire.Fault Nat × Proxy :=
  let ((count, p), fault, _) :=
    Wire.Frame.fold (fun (count, p) m _ ↦ (count + 1, p.handle m)) (0, p) source
  (if fault = .endOfStream then .ok count else .error fault, p)

/-- What `terminate` does before the worker is signalled. -/
def markTerminated (p : Proxy) : Proxy :=
  p.modify fun s ↦ { s with terminated := true }

/-- What `terminate` does after the worker was signalled: whoever waits for a ping is woken. -/
def finishTermination (p : Proxy) : Proxy :=
  p.modify fun s ↦ { s.invalidate with pings := [] }

end Proxy

end Supervisor
