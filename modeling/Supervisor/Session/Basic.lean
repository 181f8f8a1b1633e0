import Supervisor.Calendar.Timestamp
import Supervisor.Fault
import Supervisor.Number.Single
import Supervisor.Session.Client
import Supervisor.Settings.Basic
import Supervisor.Text.Clip

/-!
# Sessions

A `Session` is what the supervisor knows about one worker process and the clients that share it. All
of it is cleared when the record is used for another session.

A session becomes valid, and once it has been valid it can be invalidated, after which `setValid` no
longer revives it. Shutdown, once asked for, stays asked for.
-/

set_option autoImplicit false
set_option relaxedAutoImplicit false

namespace Supervisor

/-- Process id of a worker. -/
abbrev Pid := Int32

structure WorkerId where
  number : UInt32
deriving DecidableEq

def WorkerId.text (w : WorkerId) : String :=
  "worker#" ++ toString w.number.toNat

/-- Place of a worker in the tree of sessions. -/
inductive Role
  | topMaster
  | master
  | worker
deriving DecidableEq

def Role.name : Role → String
  | .topMaster => "TopMaster"
  | .master => "Master"
  | .worker => "Worker"

/-- The status codes that have a meaning of their own. -/
inductive Status
  | idle
  | running
  | shuttingDown
  | unknown
deriving DecidableEq

namespace Status

def ofCode (code : Int32) : Status :=
  if code = 0 then .idle else if code = 1 then .running else if code = 2 then .shuttingDown
  else .unknown

def code : Status → Int32
  | .idle => 0
  | .running => 1
  | .shuttingDown => 2
  | .unknown => -1

def name : Status → String
  | .idle => "idle"
  | .running => "running"
  | .shuttingDown => "shutting-down"
  | .unknown => "unknown"

def formalName : Status → String
  | .idle => "Idle"
  | .running => "Running"
  | .shuttingDown => "ShuttingDown"
  | .unknown => "Unknown"

end Status

structure Group where
  name : String
  priority : Number.Single
deriving DecidableEq

/-- An installation of the software that a worker runs. -/
structure Installation where
  tag : String
  version : String
  root : String
deriving DecidableEq

/-- A transport to a worker process. Links to equally named peers are told apart by their keys. -/
structure Link where
  key : Nat
  peer : String
deriving DecidableEq

/-- A link, if there is one, and the stream at its far end that is spoken to. -/
structure Channel where
  link : Option Link
  stream : StreamId
deriving DecidableEq

/-- A request to stop the worker some time later, or, when not enabled, to call that off. -/
structure ShutdownIntent where
  delay : Duration
  enabled : Bool
  requestedAt : Instant
deriving DecidableEq

namespace ShutdownIntent

/-- When the worker is to be stopped. -/
def deadline (intent : ShutdownIntent) : Except ClockFault (Option Instant) :=
  if intent.enabled then
    match intent.requestedAt.after? intent.delay with
    | none => .error .overflow
    | some deadline => .ok (some deadline)
  else .ok none

def isDue (intent : ShutdownIntent) (now : Instant) : Except ClockFault Bool :=
  intent.deadline.map fun deadline ↦ deadline.any (· ≤ now)

end ShutdownIntent

/-- The texts kept with a session. -/
inductive Label
  | ordinal
  | tag
  | nickname
  | client
  | output
  | environment
deriving DecidableEq

/-- Longest text kept for a label, in bytes. -/
def Label.limit? : Label → Option Nat
  | .tag => some 64
  | .nickname => some 256
  | _ => none

/-- What is kept of a text given for a label: nothing of an empty one, else as many whole characters
as the limit allows. -/
def Label.keep (label : Label) (text : String) : Option String :=
  if text.isEmpty then none
  else
    match label.limit? with
    | none => some text
    | some limit => some (Text.clip limit text)

/-- A ping that a proxy has opened; its serial is the number of pings that the proxy had opened
before it. -/
structure Ping where
  serial : Nat
deriving DecidableEq

/-- The number that goes to the worker and comes back. It is counted from 1, and from 0 again after
2^64 - 1. -/
def Ping.id (ping : Ping) : PingId :=
  .ofNat (ping.serial + 1)

inductive Lifecycle
  | created
  | running
  | shutdownRequested
  | terminated
  | invalid
deriving DecidableEq

namespace Lifecycle

def all : List Lifecycle := [.created, .running, .shutdownRequested, .terminated, .invalid]

/-- Name in texts for people. -/
def name : Lifecycle → String
  | .created => "created"
  | .running => "running"
  | .shutdownRequested => "shutdown-requested"
  | .terminated => "terminated"
  | .invalid => "invalid"

/-- Name in reports. -/
def formalName : Lifecycle → String
  | .created => "Created"
  | .running => "Running"
  | .shutdownRequested => "ShutdownRequested"
  | .terminated => "Terminated"
  | .invalid => "Invalid"

def rank : Lifecycle → Nat
  | .created => 0
  | .running => 1
  | .shutdownRequested => 2
  | .terminated => 3
  | .invalid => 3

end Lifecycle

structure Session where
  id : SessionId := 0
  pid : Option Pid := none
  role : Option Role := none
  protocolVersion : Int32 := 0
  ordinal : Option String := none
  tag : Option String := none
  nickname : Option String := none
  client : Option String := none
  output : Option String := none
  environment : Option String := none
  link : Option Link := none
  /-- The client that created the session; the handle may be that of no client. -/
  parent : Option ClientSlot := none
  clients : Slots := []
  /-- Workers assigned to the session, in the order of their assignment. -/
  workers : List WorkerId := []
  /-- Pings that wait for a reply, no two under one id. -/
  pings : List Ping := []
  queryNum : Option Bytes := none
  startMsg : Option Bytes := none
  requirements : Option Bytes := none
  status : Int32 := Status.idle.code
  valid : Bool := false
  /-- Set when a valid session ceases to be valid. -/
  invalidated : Bool := false
  shutdown : Bool := false
  terminated : Bool := false
  intent : Option ShutdownIntent := none
  /-- Inflate factor in thousandths. -/
  inflate : Int32 := 1000
  schedule : Schedule
  /-- Scheduling of the worker when its process was recorded. -/
  defaultSchedule : Schedule
  defaultPriority : Option Int32 := none
  effectiveFraction : Number.Single := Number.Single.zero
  installation : Option Installation := none
  group : Option Group := none
  createdAt : Calendar.Timestamp
deriving DecidableEq

namespace Session

def new (settings : Settings) (createdAt : Calendar.Timestamp) : Session where
  schedule := settings.schedule
  defaultSchedule := settings.schedule
  createdAt := createdAt

def lifecycle (s : Session) : Lifecycle :=
  if s.terminated then .terminated
  else if s.invalidated then .invalid
  else if s.shutdown then .shutdownRequested
  else if s.valid && s.pid.isSome then .running
  else .created

def invalidate (s : Session) : Session :=
  { s with valid := false, invalidated := s.invalidated || s.valid }

/-- Marks the session usable, unless it was invalidated before, or not usable. -/
def setValid (value : Bool) (s : Session) : Session :=
  if value then if s.invalidated then s else { s with valid := true } else s.invalidate

def setShutdown (value : Bool) (s : Session) : Session :=
  { s with shutdown := s.shutdown || value }

/-- May take new clients and workers. -/
def acceptsNewWork (s : Session) : Bool :=
  s.valid && !s.shutdown

/-- The worker's end of the link, addressed by the session's id modulo 2^16. -/
def channel (s : Session) : Channel :=
  ⟨s.link, s.id.toUInt16.toUInt32⟩

def label (s : Session) : Label → Option String
  | .ordinal => s.ordinal
  | .tag => s.tag
  | .nickname => s.nickname
  | .client => s.client
  | .output => s.output
  | .environment => s.environment

def setLabel (label : Label) (text : String) (s : Session) : Session :=
  let kept := label.keep text
  match label with
  | .ordinal => { s with ordinal := kept }
  | .tag => { s with tag := kept }
  | .nickname => { s with nickname := kept }
  | .client => { s with client := kept }
  | .output => { s with output := kept }
  | .environment => { s with environment := kept }

def staged (s : Session) : PayloadKind → Option Bytes
  | .queryNum => s.queryNum
  | .startMsg => s.startMsg
  | .requirements => s.requirements

def setStaged (kind : PayloadKind) (content : Option Bytes) (s : Session) : Session :=
  match kind with
  | .queryNum => { s with queryNum := content }
  | .startMsg => { s with startMsg := content }
  | .requirements => { s with requirements := content }

/-- Replaces a staged payload; empty requirements clear them. -/
def stage (kind : PayloadKind) (content : Bytes) (s : Session) : Session :=
  s.setStaged kind (if kind = .requirements ∧ content = [] then none else some content)

/-- The ping that waits for a reply under an id. -/
def pending? (s : Session) (id : PingId) : Option Ping :=
  s.pings.find? fun ping ↦ ping.id = id

/-- Lets nothing wait for a reply under an id. -/
def forget (id : PingId) (s : Session) : Session :=
  { s with pings := s.pings.filter fun ping ↦ ping.id ≠ id }

/-- Lets a ping wait for its reply, in place of any other under its id. -/
def register (ping : Ping) (s : Session) : Session :=
  { s with pings := ping :: (s.forget ping.id).pings }

/-- Drops the first assignment of a worker, and says whether there was one. -/
def removeWorker (worker : WorkerId) (s : Session) : Bool × Session :=
  (s.workers.contains worker, { s with workers := s.workers.erase worker })

def isParent (s : Session) (connection : ConnectionId) : Bool :=
  s.parent.any (·.belongsTo connection)

theorem staged_setStaged (s : Session) (kind other : PayloadKind) (content : Option Bytes) :
    (s.setStaged kind content).staged other = if other = kind then content else s.staged other := by
  cases kind <;> cases other <;> rfl

theorem label_setLabel (s : Session) (label other : Label) (text : String) :
    (s.setLabel label text).label other =
      if other = label then label.keep text else s.label other := by
  cases label <;> cases other <;> rfl

end Session

end Supervisor
