import Supervisor.World.Process

/-!
# Sending to a worker

A `Host` is process control together with the links. Anything may happen while a link takes a frame:
`Host.transmit` is given the world and may hand back another one, with every proxy changed. So each
operation that sends has a part before the frame is handed over and a part after, and it makes its
decisions before from what it read then.
-/

set_option autoImplicit false
set_option relaxedAutoImplicit false

namespace Supervisor

structure Host (σ : Type) extends ProcessControl σ where
  transmit : Link → Bytes → World σ → Except IoFault Unit × World σ

namespace World

variable {σ : Type}

/-- Sends a message for the proxy `h` on a channel. A message that fits no frame is not handed to
the link. -/
def send (host : Host σ) (h : Handle) (channel : Channel) (m : Message) (w : World σ) :
    Except Fault Unit × World σ :=
  match channel.link with
  | none => (.error .noLink, w)
  | some link =>
    match Wire.Frame.encode m channel.stream with
    | .error fault => (.error (.transport (.wire fault)), w)
    | .ok frame =>
      let dispatch : Dispatch := ⟨h, link, m, channel.stream, frame⟩
      match host.transmit link frame (w.note (.offered dispatch)) with
      | (.error fault, w) => (.error (.transport fault), w)
      | (.ok (), w) => (.ok (), w.note (.accepted dispatch))

/-- Puts a payload back after its sending failed, unless another one was staged meanwhile. -/
def restore (h : Handle) (kind : PayloadKind) (content : Bytes) (w : World σ) : World σ :=
  w.modify h (Proxy.modify fun s ↦
    if (s.staged kind).isNone then s.setStaged kind (some content) else s)

/-- Forwards a staged payload to the worker, and says whether there was one. Requirements stay
staged; the other kinds are taken away before they are sent and put back when the sending fails. -/
def sendStaged (host : Host σ) (h : Handle) (kind : PayloadKind) (w : World σ) :
    Except Fault Bool × World σ :=
  let session := w.session h
  match session.staged kind with
  | none => (.ok false, w)
  | some content =>
    let kept := kind = .requirements
    let w := if kept then w else w.modify h (Proxy.modify (Session.setStaged kind none))
    match w.send host h session.channel (.staged kind content) with
    | (.ok (), w) => (.ok true, w)
    | (.error fault, w) => (.error fault, if kept then w else w.restore h kind content)

/-- Records when the worker is to be stopped, and tells the worker if it has a link. -/
def requestShutdown (host : Host σ) (h : Handle) (delay : Duration) (enable : Bool) (w : World σ) :
    Except Fault Unit × World σ :=
  let channel := (w.session h).channel
  let intent : ShutdownIntent := ⟨delay, enable, w.now⟩
  let w := (w.modify h (Proxy.modify fun s ↦
    { s with shutdown := true, intent := some intent })).note (.requested h intent)
  if channel.link.isNone then (.ok (), w)
  else w.send host h channel (.shutdownTimer delay.seconds enable)

/-- Records the inflate factor, and tells the worker if asked to. -/
def setInflate (host : Host σ) (h : Handle) (factor : Int32) (sendOver : Bool) (w : World σ) :
    Except Fault Unit × World σ :=
  let channel := (w.session h).channel
  let w := w.modify h (Proxy.modify fun s ↦ { s with inflate := factor })
  if sendOver then w.send host h channel (.inflate factor) else (.ok (), w)

/-- Collects the reply to a ping that has been sent, or gives the ping up. -/
def concludePing (h : Handle) (ping : Ping) (timeout : Duration) (w : World σ) :
    Except Fault Unit × World σ :=
  let (result, p) := (w.proxy h).awaitPing ping
  let w := w.put h (p.dropPing ping)
  match result with
  | .answered => (.ok (), w)
  | .timedOut => (.error (.timeout timeout), w)
  | .disconnected => (.error .invalid, w)

/-- Sends a ping and waits for its reply. The ping is registered before it is sent, so that a
termination while it is under way tears it down. -/
def verifyAlive (host : Host σ) (h : Handle) (timeout : Duration) (w : World σ) :
    Except Fault Unit × World σ :=
  let session := w.session h
  if !session.valid || session.terminated then (.error .invalid, w)
  else if session.link.isNone then (.error .noLink, w)
  else
    let (ping, p) := (w.proxy h).openPing
    match (w.put h p).send host h session.channel (.ping ping.id) with
    | (.error fault, w) => (.error fault, w.modify h (Proxy.dropPing ping))
    | (.ok (), w) => w.concludePing h ping timeout

end World

end Supervisor
