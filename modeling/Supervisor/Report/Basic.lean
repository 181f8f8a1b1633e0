import Supervisor.Session.Basic

/-!
# Status reports

A `Report` is what is told about a session at one moment.
-/

set_option autoImplicit false
set_option relaxedAutoImplicit false

namespace Supervisor

structure Report where
  id : SessionId
  pid : Option Pid
  role : Option Role
  protocolVersion : Int32
  ordinal : Option String
  tag : Option String
  nickname : Option String
  client : Option String
  status : Int32
  statusName : String
  lifecycle : Lifecycle
  valid : Bool
  shutdown : Bool
  attachedClients : UInt64
  workers : List WorkerId
  inflate : Int32
  schedule : Schedule
  effectiveFraction : Number.Single
  /-- Name of the session's group. -/
  group : Option String
  /-- Tag of the session's installation. -/
  installation : Option String
  createdAt : Calendar.Timestamp
deriving DecidableEq

def Session.report (s : Session) : Report where
  id := s.id
  pid := s.pid
  role := s.role
  protocolVersion := s.protocolVersion
  ordinal := s.ordinal
  tag := s.tag
  nickname := s.nickname
  client := s.client
  status := s.status
  statusName := (Status.ofCode s.status).name
  lifecycle := s.lifecycle
  valid := s.valid
  shutdown := s.shutdown
  attachedClients := UInt64.ofNat s.clients.attached
  workers := s.workers
  inflate := s.inflate
  schedule := s.schedule
  effectiveFraction := s.effectiveFraction
  group := s.group.map Group.name
  installation := s.installation.map Installation.tag
  createdAt := s.createdAt

end Supervisor
