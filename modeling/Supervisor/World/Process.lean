import Supervisor.World.Basic

/-!
# Worker processes

`ProcessControl` is what the supervisor needs of the operating system for the process of a worker:
signals, existence, priority and scheduling. Every call is entered in the journal before it is made.

`terminate` signals a session's worker at most once and leaves the session invalid whatever becomes
of the signal. The scheduling of a session is changed only when the process took the change.
-/

set_option autoImplicit false
set_option relaxedAutoImplicit false

namespace Supervisor

structure ProcessControl (σ : Type) where
  signal : Pid → Signal → σ → Except Fault Unit × σ
  alive : Pid → σ → Bool × σ
  priority : Pid → σ → Except Fault Int32 × σ
  setPriority : Pid → Int32 → σ → Except Fault Unit × σ
  schedule : Pid → σ → Except Fault Schedule × σ
  setSchedule : Pid → Schedule → σ → Except Fault Unit × σ

/-- Control over processes none of which exists. A negative policy is refused before the process is
looked for. -/
def ProcessControl.ofNone (σ : Type) : ProcessControl σ where
  signal _ _ e := (.error .noSuchProcess, e)
  alive _ e := (false, e)
  priority _ e := (.error .noSuchProcess, e)
  setPriority _ _ e := (.error .noSuchProcess, e)
  schedule _ e := (.error .noSuchProcess, e)
  setSchedule _ schedule e :=
    (if schedule.policy.number < 0 then .error (.os .invalidArgument) else .error .noSuchProcess, e)

/-- The sum of two priorities, kept within 32 bits. -/
def addPriority (a b : Int32) : Int32 :=
  let sum := a.toInt + b.toInt
  Int32.ofInt (max (-2 ^ 31) (min (2 ^ 31 - 1) sum))

namespace World

variable {σ : Type} {α : Type}

/-- Enters a call in the journal and makes it. -/
def call (event : Event) (f : σ → α × σ) (w : World σ) : α × World σ :=
  let (answer, environment) := f w.environment
  (answer, { w.note event with environment := environment })

@[simp] theorem proxy_call (w : World σ) (event : Event) (f : σ → α × σ) (h : Handle) :
    (w.call event f).2.proxy h = w.proxy h :=
  rfl

@[simp] theorem journal_call (w : World σ) (event : Event) (f : σ → α × σ) :
    (w.call event f).2.journal = event :: w.journal :=
  rfl

@[simp] theorem inUse_call (w : World σ) (event : Event) (f : σ → α × σ) :
    (w.call event f).2.inUse = w.inUse :=
  rfl

/-- Signals the worker to exit and makes the session invalid. Only the first call does. -/
def terminate (control : ProcessControl σ) (h : Handle) (w : World σ) :
    Except Fault Unit × World σ :=
  let p := w.proxy h
  if p.session.terminated || p.session.invalidated then (.error .alreadyTerminated, w)
  else
    let w := (w.modify h Proxy.markTerminated).note (.ended h)
    let (outcome, w) : Except Fault Unit × World σ :=
      match p.session.pid with
      | none => (.error .noSuchProcess, w)
      | some pid =>
        let sig := p.settings.terminateSignal
        w.call (.signalled h pid sig) (control.signal pid sig)
    (outcome, w.modify h Proxy.finishTermination)

/-- Records the process of the worker with its scheduling, or the one in the settings if the process
cannot be asked. -/
def setServer (control : ProcessControl σ) (h : Handle) (pid : Pid) (w : World σ) : World σ :=
  let (schedule, w) := w.call (.scheduleRead h pid) (control.schedule pid)
  let (priority, w) := w.call (.priorityRead h pid) (control.priority pid)
  let w := w.modify h fun p ↦
    let found := schedule.toOption.getD p.settings.schedule
    p.modify fun s ↦
      { s with
        pid := some pid
        schedule := found
        defaultSchedule := found
        defaultPriority := priority.toOption }
  w.note (.recorded h pid)

/-- Shifts the priority of the worker and gives the new one. -/
def changePriority (control : ProcessControl σ) (h : Handle) (delta : Int32) (w : World σ) :
    Except Fault Int32 × World σ :=
  match (w.session h).pid with
  | none => (.error .noSuchProcess, w)
  | some pid =>
    match w.call (.priorityRead h pid) (control.priority pid) with
    | (.error fault, w) => (.error fault, w)
    | (.ok current, w) =>
      let target := addPriority current delta
      match w.call (.prioritySet h pid target) (control.setPriority pid target) with
      | (.error fault, w) => (.error fault, w)
      | (.ok (), w) => (.ok target, w)

/-- Switches the worker to round-robin scheduling, or back to what it had. -/
def setRoundRobin (control : ProcessControl σ) (h : Handle) (on : Bool) (w : World σ) :
    Except Fault Unit × World σ :=
  let p := w.proxy h
  match p.session.pid with
  | none => (.error .noSuchProcess, w)
  | some pid =>
    let target :=
      if on then ⟨.roundRobin, p.settings.roundRobinPriority⟩ else p.session.defaultSchedule
    match w.call (.scheduleSet h pid target) (control.setSchedule pid target) with
    | (.error fault, w) => (.error fault, w)
    | (.ok (), w) => (.ok (), w.modify h (Proxy.modify fun s ↦ { s with schedule := target }))

end World

end Supervisor
