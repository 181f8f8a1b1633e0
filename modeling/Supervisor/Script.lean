import Supervisor.World.Run

/-!
# Scripted links and processes

A `Script` plays the environment of a world: processes that answer from a small table, and links
that take their frames with one prepared action after the other. An action may do things to the
proxy that the link was given to while the frame is under way, and may then fail.
`Script.host_orderly` says that such a host does nothing but operations.
-/

set_option autoImplicit false
set_option relaxedAutoImplicit false

namespace Supervisor

/-- Calls of process control that may be refused. -/
inductive ControlCall
  | signal
  | priority
  | setPriority
  | schedule
  | setSchedule
deriving DecidableEq

/-- Name under which a refused call is reported. -/
def ControlCall.name : ControlCall → String
  | .signal => "signal"
  | .priority => "priority"
  | .setPriority => "set_priority"
  | .schedule => "scheduler"
  | .setSchedule => "set_scheduler"

/-- How every process answers. -/
structure ProcessScript where
  priority : Int32 := 0
  schedule : Schedule := Schedule.standard
  exited : List Pid := []
  refusals : List (ControlCall × Errno) := []

namespace ProcessScript

def refusal? (s : ProcessScript) (call : ControlCall) : Option Fault :=
  (s.refusals.find? fun entry ↦ entry.1 = call).map fun entry ↦
    Fault.ofErrno entry.2 call.name

def answer {α : Type} (s : ProcessScript) (call : ControlCall) (value : α) : Except Fault α :=
  match s.refusal? call with
  | some fault => .error fault
  | none => .ok value

end ProcessScript

/-- What happens to the owner of a link while a frame is under way. -/
inductive Hook
  /-- If the frame is a ping, a reply comes with an id that many after the ping's. -/
  | reply (shift : UInt64)
  | terminate
  | reset
  | invalidate
  | unlink
  | status (code : Int32)
  | restage (startMsg queryNum : Bytes)
  | clearRequirements
deriving DecidableEq

structure LinkAction where
  hooks : List Hook := []
  failure : Option IoFault := none
deriving DecidableEq

/-- The proxy that a link was given to, and the actions still to come. The last one repeats. -/
structure LinkScript where
  owner : Handle
  actions : List LinkAction

structure Script where
  process : ProcessScript := {}
  /-- Scripts of the links, by key. -/
  links : List LinkScript := []

namespace Script

def control : ProcessControl Script where
  signal _ _ s := (s.process.answer .signal (), s)
  alive pid s := (!s.process.exited.contains pid, s)
  priority _ s := (s.process.answer .priority s.process.priority, s)
  setPriority _ value s :=
    match s.process.answer .setPriority () with
    | .ok () => (.ok (), { s with process := { s.process with priority := value } })
    | .error fault => (.error fault, s)
  schedule _ s := (s.process.answer .schedule s.process.schedule, s)
  setSchedule _ value s :=
    match s.process.answer .setSchedule () with
    | .ok () => (.ok (), { s with process := { s.process with schedule := value } })
    | .error fault => (.error fault, s)

/-- The next action of a link, and the script after it. -/
def nextAction (key : Nat) (s : Script) : LinkAction × Script :=
  match s.links[key]? with
  | none => ({}, s)
  | some link =>
    match link.actions with
    | [] => ({}, s)
    | [action] => (action, s)
    | action :: actions =>
      (action, { s with links := s.links.set key { link with actions := actions } })

def runHook (control : ProcessControl Script) (h : Handle) (frame : Bytes) (w : World Script) :
    Hook → World Script
  | .reply shift =>
    match (Wire.Frame.read (.ofBytes frame)).1 with
    | .ok (.ping id, _) => (w.edit h (.handle (.pingReply (id + shift)))).2
    | _ => w
  | .terminate =>
    let (outcome, w) := w.terminate control h
    w.note (.noted outcome)
  | .reset => w.reset h
  | .invalidate => (w.edit h (.setValid false)).2
  | .unlink => (w.edit h (.setLink none)).2
  | .status code => (w.edit h (.handle (.status code))).2
  | .restage startMsg queryNum =>
    let w := (w.edit h (.stage .startMsg startMsg)).2
    (w.edit h (.stage .queryNum queryNum)).2
  | .clearRequirements => (w.edit h (.stage .requirements [])).2

def transmit (control : ProcessControl Script) (link : Link) (frame : Bytes) (w : World Script) :
    Except IoFault Unit × World Script :=
  let (action, script) := w.environment.nextAction link.key
  let w := { w with environment := script }
  match w.environment.links[link.key]? with
  | none => (.ok (), w)
  | some linkScript =>
    let w := action.hooks.foldl (runHook control linkScript.owner frame) w
    (match action.failure with
      | some fault => .error fault
      | none => .ok (), w)

/-- Links that follow the script, with processes under the given control. -/
def host (control : ProcessControl Script) : Host Script :=
  ⟨control, transmit control⟩

/-- Gives a proxy a link with a script of its own. -/
def connect (h : Handle) (peer : String) (actions : List LinkAction) (w : World Script) :
    World Script :=
  let key := w.environment.links.length
  let links := w.environment.links ++ [⟨h, actions⟩]
  let w := { w with environment := { w.environment with links := links } }
  (w.edit h (.setLink (some ⟨key, peer⟩))).2

theorem reaches_runHook (control : ProcessControl Script) (h : Handle) (frame : Bytes)
    (w : World Script) (hook : Hook) : Reaches control w (runHook control h frame w hook) := by
  have step (v : World Script) (op : Operation) :
      Reaches control v (v.perform ⟨control, fun _ _ u ↦ (.ok (), u)⟩ op).2 :=
    (Reaches.refl v).perform op _ fun _ _ u ↦ Reaches.refl u
  cases hook with
  | reply shift =>
    simp only [runHook]
    split
    · exact step w (.edit h (.handle _))
    · exact Reaches.refl w
  | terminate => exact (step w (.terminate h)).remark _
  | reset => exact step w (.reset h)
  | invalidate => exact step w (.edit h (.setValid false))
  | unlink => exact step w (.edit h (.setLink none))
  | status code => exact step w (.edit h (.handle (.status code)))
  | restage startMsg queryNum =>
    exact (step w (.edit h (.stage .startMsg startMsg))).trans
      (step _ (.edit h (.stage .queryNum queryNum)))
  | clearRequirements => exact step w (.edit h (.stage .requirements []))

theorem reaches_foldl_runHook (control : ProcessControl Script) (h : Handle) (frame : Bytes)
    (hooks : List Hook) (w : World Script) :
    Reaches control w (hooks.foldl (runHook control h frame) w) := by
  induction hooks generalizing w with
  | nil => exact Reaches.refl w
  | cons hook hooks ih => exact (reaches_runHook control h frame w hook).trans (ih _)

theorem host_orderly (control : ProcessControl Script) : (host control).Orderly := by
  intro link frame w
  have begun : Reaches control w
      { w with environment := (w.environment.nextAction link.key).2 } :=
    (Reaches.refl w).change _
  simp only [host, transmit]
  split
  · exact begun
  · exact begun.trans (reaches_foldl_runHook control _ frame _ _)

end Script

end Supervisor
