import Supervisor.Session.Proxy

/-!
# Edits

An `Edit` is anything that can be done to a proxy on its own, without its link and its process being
used. `Edit.apply` gives the answer to the one who asked together with the proxy afterwards.
-/

set_option autoImplicit false
set_option relaxedAutoImplicit false

namespace Supervisor

inductive Edit
  | setId (id : SessionId)
  | setRole (role : Role)
  | setProtocolVersion (version : Int32)
  | setLabel (label : Label) (text : String)
  | setStatus (code : Int32)
  | setValid (value : Bool)
  | setShutdown (value : Bool)
  | setEffectiveFraction (value : Number.Single)
  | setGroup (group : Option Group)
  | setInstallation (installation : Option Installation)
  | setParent (parent : Option ClientSlot)
  | setLink (link : Option Link)
  | addWorker (worker : WorkerId)
  | removeWorker (worker : WorkerId)
  | clearWorkers
  | stage (kind : PayloadKind) (content : Bytes)
  | unstage (kind : PayloadKind)
  | reserveSlot
  | attach (client : Client)
  | detach (slot : Nat)
  | detachConnection (connection : ConnectionId)
  | openPing
  | awaitPing (ping : Ping)
  | dropPing (ping : Ping)
  | deletePing (id : PingId)
  | deliver (id : PingId)
  | handle (m : Message)
  | route (source : Wire.Source)
deriving DecidableEq

/-- What an edit is answered with. -/
inductive Edit.Answer
  | done
  | flag (value : Bool)
  | count (n : Nat)
  | client (detached : Option Client)
  | ping (ping : Ping)
  | awaited (result : Awaited)
  | routed (result : Except Wire.Fault Nat)
deriving DecidableEq

namespace Edit

/-- An edit of the session that has no answer. -/
def silent (f : Session → Session) (p : Proxy) : Answer × Proxy :=
  (.done, p.modify f)

def apply (edit : Edit) (p : Proxy) : Answer × Proxy :=
  match edit with
  | .setId id => silent (fun s ↦ { s with id := id }) p
  | .setRole role => silent (fun s ↦ { s with role := some role }) p
  | .setProtocolVersion version => silent (fun s ↦ { s with protocolVersion := version }) p
  | .setLabel label text => silent (Session.setLabel label text) p
  | .setStatus code => silent (fun s ↦ { s with status := code }) p
  | .setValid value => silent (Session.setValid value) p
  | .setShutdown value => silent (Session.setShutdown value) p
  | .setEffectiveFraction value => silent (fun s ↦ { s with effectiveFraction := value }) p
  | .setGroup group => silent (fun s ↦ { s with group := group }) p
  | .setInstallation installation => silent (fun s ↦ { s with installation := installation }) p
  | .setParent parent => silent (fun s ↦ { s with parent := parent }) p
  | .setLink link => silent (fun s ↦ { s with link := link }) p
  | .addWorker worker => silent (fun s ↦ { s with workers := s.workers ++ [worker] }) p
  | .removeWorker worker =>
    let (present, s) := p.session.removeWorker worker
    (.flag present, { p with session := s })
  | .clearWorkers => silent (fun s ↦ { s with workers := [] }) p
  | .stage kind content => silent (Session.stage kind content) p
  | .unstage kind => silent (Session.setStaged kind none) p
  | .reserveSlot =>
    let (index, slots) := p.session.clients.reserve
    (.count index, p.modify fun s ↦ { s with clients := slots })
  | .attach client =>
    let (index, slots) := p.session.clients.install client
    (.count index, p.modify fun s ↦ { s with clients := slots })
  | .detach slot =>
    let (client, slots) := p.session.clients.detach slot
    (.client client, p.modify fun s ↦ { s with clients := slots })
  | .detachConnection connection =>
    let (count, slots) := p.session.clients.detachConnection connection
    (.count count, p.modify fun s ↦ { s with clients := slots })
  | .openPing =>
    let (ping, p) := p.openPingForCaller
    (.ping ping, p)
  | .awaitPing ping =>
    let (result, p) := p.awaitCallersPing ping
    (.awaited result, p)
  | .dropPing ping => (.done, p.dropCallersPing ping)
  | .deletePing id =>
    let (pending, p) := p.deletePing id
    (.flag pending, p)
  | .deliver id =>
    let (delivered, p) := p.deliver id
    (.flag delivered, p)
  | .handle m => (.done, p.handle m)
  | .route source =>
    let (result, p) := p.route source
    (.routed result, p)

end Edit

end Supervisor
