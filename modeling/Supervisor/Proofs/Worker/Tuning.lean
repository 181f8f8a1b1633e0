import Mathlib.Logic.Relation
import Supervisor.Script

/-!
# The schedule on record is that of the worker

How a worker is scheduled is kept twice, by its process and by the session. The two are brought
together when the process is recorded, and from then on each of them changes only with the other: a
process that refuses a change keeps its schedule, and then the session does too. So the session can
tell how the worker is scheduled without asking, and what the worker is put back to is what it had
in the beginning (`World.tuning_tracked`).

What processes hold is a view of the environment, and `ProcessControl.Tunes` says what the control
has to do with it. Nothing is asked of a change that is made to one process about any other.
-/

set_option autoImplicit false
set_option relaxedAutoImplicit false

namespace Supervisor

/-- What a process is set to. -/
structure Tuning where
  schedule : Schedule
  priority : Int32
deriving DecidableEq

variable {σ : Type}

/-- Processes answer what they hold, and it changes only by a call that sets it and is not
refused. -/
structure ProcessControl.Tunes (control : ProcessControl σ) (tuning : σ → Pid → Tuning) :
    Prop where
  schedule : ∀ pid e, tuning (control.schedule pid e).2 = tuning e
  scheduled : ∀ pid e found, (control.schedule pid e).1 = .ok found →
    found = (tuning e pid).schedule
  priority : ∀ pid e, tuning (control.priority pid e).2 = tuning e
  prioritized : ∀ pid e found, (control.priority pid e).1 = .ok found →
    found = (tuning e pid).priority
  setSchedule : ∀ pid target e, (control.setSchedule pid target e).1 = .ok () →
    tuning (control.setSchedule pid target e).2 pid = { tuning e pid with schedule := target }
  scheduleRefused : ∀ pid target e fault, (control.setSchedule pid target e).1 = .error fault →
    tuning (control.setSchedule pid target e).2 = tuning e
  setPriority : ∀ pid target e, (control.setPriority pid target e).1 = .ok () →
    tuning (control.setPriority pid target e).2 pid = { tuning e pid with priority := target }
  priorityRefused : ∀ pid target e fault, (control.setPriority pid target e).1 = .error fault →
    tuning (control.setPriority pid target e).2 = tuning e

theorem toInt_addPriority (a b : Int32) :
    (addPriority a b).toInt = max (-2 ^ 31) (min (2 ^ 31 - 1) (a.toInt + b.toInt)) := by
  unfold addPriority
  dsimp only
  rw [Int32.toInt_ofInt_of_le (by omega) (by omega)]

namespace World

variable {control : ProcessControl σ} {tuning : σ → Pid → Tuning} {h : Handle} {pid : Pid}
  {captured : Schedule} {u v w : World σ}

/-- Neither a session nor a process was changed. -/
structure Unmoved (tuning : σ → Pid → Tuning) (w v : World σ) : Prop where
  proxy : ∀ k, v.proxy k = w.proxy k
  process : tuning v.environment = tuning w.environment

/-! ### The two calls -/

/-- What the worker is switched to. -/
def switchTarget (w : World σ) (h : Handle) (on : Bool) : Schedule :=
  if on then ⟨.roundRobin, (w.proxy h).settings.roundRobinPriority⟩
  else (w.session h).defaultSchedule

/-- Process and session are switched together, or the process refuses and neither is. -/
theorem setRoundRobin_cases (tunes : control.Tunes tuning) (recorded : (w.session h).pid = some pid)
    (on : Bool) :
    (∃ fault v, w.setRoundRobin control h on = (.error fault, v) ∧ w.Unmoved tuning v) ∨
      ∃ v, w.setRoundRobin control h on = (.ok (), v) ∧
        (∀ k, v.proxy k = (w.modify h (Proxy.modify fun s ↦
          { s with schedule := w.switchTarget h on })).proxy k) ∧
        tuning v.environment pid =
          { tuning w.environment pid with schedule := w.switchTarget h on } := by
  have target : (if on then ⟨.roundRobin, (w.proxy h).settings.roundRobinPriority⟩
      else (w.proxy h).session.defaultSchedule) = w.switchTarget h on := rfl
  rw [session] at recorded
  unfold setRoundRobin
  dsimp only
  rw [recorded]
  dsimp only
  rw [target, call]
  generalize w.switchTarget h on = target
  cases answered : control.setSchedule pid target w.environment with
  | mk answer environment =>
    cases answer with
    | error fault =>
      have kept := tunes.scheduleRefused pid target w.environment fault
      rw [answered] at kept
      exact .inl ⟨fault, _, rfl, ⟨fun _ ↦ rfl, kept rfl⟩⟩
    | ok =>
      have changed := tunes.setSchedule pid target w.environment
      rw [answered] at changed
      exact .inr ⟨_, rfl, fun _ ↦ rfl, changed rfl⟩

/-- The process is asked what its priority is and given another one, and may refuse both; no
session is concerned. -/
theorem changePriority_cases (tunes : control.Tunes tuning)
    (recorded : (w.session h).pid = some pid) (delta : Int32) :
    (∃ fault v, w.changePriority control h delta = (.error fault, v) ∧ w.Unmoved tuning v) ∨
      ∃ v, w.changePriority control h delta =
          (.ok (addPriority (tuning w.environment pid).priority delta), v) ∧
        (∀ k, v.proxy k = w.proxy k) ∧
        tuning v.environment pid = { tuning w.environment pid with
          priority := addPriority (tuning w.environment pid).priority delta } := by
  unfold changePriority
  rw [recorded]
  dsimp only
  rw [call]
  have asking := tunes.priority pid w.environment
  have found := tunes.prioritized pid w.environment
  cases asked : control.priority pid w.environment with
  | mk answer environment =>
    rw [asked] at asking found
    cases answer with
    | error fault => exact .inl ⟨fault, _, rfl, ⟨fun _ ↦ rfl, asking⟩⟩
    | ok current =>
      obtain rfl := found current rfl
      rw [← asking]
      dsimp only
      generalize addPriority (tuning environment pid).priority delta = target
      rw [call]
      cases answered : control.setPriority pid target environment with
      | mk answer environment' =>
        cases answer with
        | error fault =>
          have kept := tunes.priorityRefused pid target environment fault
          rw [answered] at kept
          exact .inl ⟨fault, _, rfl, ⟨fun _ ↦ rfl, (kept rfl).trans asking⟩⟩
        | ok =>
          have changed := tunes.setPriority pid target environment
          rw [answered] at changed
          exact .inr ⟨_, rfl, fun _ ↦ rfl, changed rfl⟩

/-! ### Runs -/

/-- What a session has on record of how its worker is scheduled. -/
structure SameRecord (h : Handle) (w v : World σ) : Prop where
  pid : (v.session h).pid = (w.session h).pid
  schedule : (v.session h).schedule = (w.session h).schedule
  defaultSchedule : (v.session h).defaultSchedule = (w.session h).defaultSchedule

/-- One step of a run in which the process `pid` is tuned for `h` alone: it is switched, its
priority is shifted, or something happens that touches neither the record nor the process. What the
process refuses may be different from step to step. -/
inductive TuningStep (control : ProcessControl σ) (tuning : σ → Pid → Tuning) (h : Handle)
    (pid : Pid) (w : World σ) : World σ → Prop
  | setRoundRobin (on : Bool) : TuningStep control tuning h pid w (w.setRoundRobin control h on).2
  | changePriority (delta : Int32) :
      TuningStep control tuning h pid w (w.changePriority control h delta).2
  | aside {v : World σ} (record : SameRecord h w v)
      (process : tuning v.environment pid = tuning w.environment pid) :
      TuningStep control tuning h pid w v

abbrev TuningRun (control : ProcessControl σ) (tuning : σ → Pid → Tuning) (h : Handle)
    (pid : Pid) : World σ → World σ → Prop :=
  Relation.ReflTransGen (TuningStep control tuning h pid)

/-- The record is that of the process, and what was found in the beginning is kept beside it. -/
structure OnRecord (tuning : σ → Pid → Tuning) (h : Handle) (pid : Pid) (captured : Schedule)
    (w : World σ) : Prop where
  recorded : (w.session h).pid = some pid
  schedule : (w.session h).schedule = (tuning w.environment pid).schedule
  defaultSchedule : (w.session h).defaultSchedule = captured

theorem onRecord_setServer (tunes : control.Tunes tuning)
    (found : (control.schedule pid w.environment).1 = .ok captured) :
    (w.setServer control h pid).OnRecord tuning h pid captured := by
  have session : (w.setServer control h pid).session h = { w.session h with
      pid := some pid
      schedule := captured
      defaultSchedule := captured
      defaultPriority :=
        (control.priority pid (control.schedule pid w.environment).2).1.toOption } := by
    have asked : (w.call (.scheduleRead h pid) (control.schedule pid)).1 = .ok captured := found
    unfold setServer
    rw [World.session, proxy_note, proxy_modify_self]
    dsimp only
    rw [asked]
    rfl
  have kept : tuning (w.setServer control h pid).environment = tuning w.environment :=
    (tunes.priority pid _).trans (tunes.schedule pid w.environment)
  refine ⟨by rw [session], ?_, by rw [session]⟩
  rw [session, kept]
  exact tunes.scheduled pid w.environment captured found

namespace OnRecord

theorem unmoved (known : w.OnRecord tuning h pid captured) (same : w.Unmoved tuning v) :
    v.OnRecord tuning h pid captured := by
  have session : v.session h = w.session h := congrArg Proxy.session (same.proxy h)
  exact ⟨session ▸ known.recorded, by rw [session, same.process, known.schedule],
    session ▸ known.defaultSchedule⟩

theorem setRoundRobin (known : w.OnRecord tuning h pid captured) (tunes : control.Tunes tuning)
    (on : Bool) : (w.setRoundRobin control h on).2.OnRecord tuning h pid captured := by
  rcases setRoundRobin_cases tunes known.recorded on with
    ⟨fault, v, answer, same⟩ | ⟨v, answer, proxies, process⟩
  · rw [answer]
    exact known.unmoved same
  · have session : v.session h = { w.session h with schedule := w.switchTarget h on } := by
      rw [World.session, proxies, proxy_modify_self]
      rfl
    rw [answer]
    exact ⟨by rw [session, known.recorded], by rw [session, process],
      by rw [session, known.defaultSchedule]⟩

theorem changePriority (known : w.OnRecord tuning h pid captured) (tunes : control.Tunes tuning)
    (delta : Int32) : (w.changePriority control h delta).2.OnRecord tuning h pid captured := by
  rcases changePriority_cases tunes known.recorded delta with
    ⟨fault, v, answer, same⟩ | ⟨v, answer, proxies, process⟩
  · rw [answer]
    exact known.unmoved same
  · have session : v.session h = w.session h := congrArg Proxy.session (proxies h)
    rw [answer]
    exact ⟨session ▸ known.recorded, by rw [session, process, known.schedule],
      session ▸ known.defaultSchedule⟩

theorem step (known : w.OnRecord tuning h pid captured) (tunes : control.Tunes tuning)
    (step : w.TuningStep control tuning h pid v) : v.OnRecord tuning h pid captured := by
  cases step with
  | setRoundRobin on => exact known.setRoundRobin tunes on
  | changePriority delta => exact known.changePriority tunes delta
  | aside record process =>
    exact ⟨record.pid.trans known.recorded, by rw [record.schedule, process, known.schedule],
      record.defaultSchedule.trans known.defaultSchedule⟩

theorem run (known : w.OnRecord tuning h pid captured) (tunes : control.Tunes tuning)
    (run : TuningRun control tuning h pid w v) : v.OnRecord tuning h pid captured := by
  induction run with
  | refl => exact known
  | tail _ step ih => exact ih.step tunes step

end OnRecord

/-! ### What is tracked -/

/-- What is known of a worker from what its session has on record, and of the calls that change
it. -/
structure Tracks (control : ProcessControl σ) (tuning : σ → Pid → Tuning) (h : Handle) (pid : Pid)
    (captured : Schedule) (w : World σ) : Prop extends OnRecord tuning h pid captured w where
  switched : ∀ on v, w.setRoundRobin control h on = (.ok (), v) →
    let target := if on then ⟨.roundRobin, (w.proxy h).settings.roundRobinPriority⟩ else captured
    (v.session h).schedule = target ∧
      tuning v.environment pid = { tuning w.environment pid with schedule := target }
  shifted : ∀ delta found v, w.changePriority control h delta = (.ok found, v) →
    found.toInt = max (-2 ^ 31)
        (min (2 ^ 31 - 1) ((tuning w.environment pid).priority.toInt + delta.toInt)) ∧
      tuning v.environment pid = { tuning w.environment pid with priority := found }
  switchRefused : ∀ on fault v, w.setRoundRobin control h on = (.error fault, v) →
    w.Unmoved tuning v
  shiftRefused : ∀ delta fault v, w.changePriority control h delta = (.error fault, v) →
    w.Unmoved tuning v
  /-- Of all that is known of all sessions, only this schedule changes. -/
  switchConfined : ∀ on, ∃ schedule, ∀ k, (w.setRoundRobin control h on).2.proxy k =
    (w.modify h (Proxy.modify fun s ↦ { s with schedule := schedule })).proxy k
  shiftConfined : ∀ delta k, (w.changePriority control h delta).2.proxy k = w.proxy k

theorem OnRecord.tracks (known : w.OnRecord tuning h pid captured) (tunes : control.Tunes tuning) :
    w.Tracks control tuning h pid captured := by
  have target (on : Bool) : w.switchTarget h on =
      if on then ⟨.roundRobin, (w.proxy h).settings.roundRobinPriority⟩ else captured := by
    rw [switchTarget, known.defaultSchedule]
  refine ⟨known, fun on v answer ↦ ?_, fun delta found v answer ↦ ?_, fun on fault v answer ↦ ?_,
    fun delta fault v answer ↦ ?_, fun on ↦ ?_, fun delta k ↦ ?_⟩
  · rcases setRoundRobin_cases tunes known.recorded on with
      ⟨fault, v', answer', -⟩ | ⟨v', answer', proxies, process⟩
    · cases answer.symm.trans answer'
    · cases answer.symm.trans answer'
      rw [← target on]
      refine ⟨?_, process⟩
      rw [World.session, proxies, proxy_modify_self]
      rfl
  · rcases changePriority_cases tunes known.recorded delta with
      ⟨fault, v', answer', -⟩ | ⟨v', answer', -, process⟩
    · cases answer.symm.trans answer'
    · cases answer.symm.trans answer'
      exact ⟨toInt_addPriority _ _, process⟩
  · rcases setRoundRobin_cases tunes known.recorded on with
      ⟨fault', v', answer', same⟩ | ⟨v', answer', -⟩
    · cases answer.symm.trans answer'
      exact same
    · cases answer.symm.trans answer'
  · rcases changePriority_cases tunes known.recorded delta with
      ⟨fault', v', answer', same⟩ | ⟨v', answer', -⟩
    · cases answer.symm.trans answer'
      exact same
    · cases answer.symm.trans answer'
  · rcases setRoundRobin_cases tunes known.recorded on with
      ⟨fault, v, answer, same⟩ | ⟨v, answer, proxies, -⟩
    · refine ⟨(w.session h).schedule, fun k ↦ ?_⟩
      rw [answer, same.proxy]
      by_cases here : k = h
      · subst here
        rw [proxy_modify_self]
        rfl
      · rw [proxy_modify_of_ne _ _ here]
    · rw [answer]
      exact ⟨_, proxies⟩
  · rcases changePriority_cases tunes known.recorded delta with
      ⟨fault, v, answer, same⟩ | ⟨v, answer, proxies, -⟩
    · rw [answer, same.proxy]
    · rw [answer, proxies]

/-- From the moment when the process of a worker is recorded and says how it is scheduled, the
session has its schedule on record, whatever is switched and shifted and whatever of that is
refused. -/
theorem tuning_tracked (tunes : control.Tunes tuning)
    (found : (control.schedule pid u.environment).1 = .ok captured)
    (run : TuningRun control tuning h pid (u.setServer control h pid) w) :
    w.Tracks control tuning h pid captured :=
  ((onRecord_setServer tunes found).run tunes run).tracks tunes

/-! ### Scripted processes -/

/-- How the processes of a script are tuned, all of them alike. -/
def scriptTuning (s : Script) (_ : Pid) : Tuning :=
  ⟨s.process.schedule, s.process.priority⟩

/-- From now on the processes refuse these calls and no others. -/
def refusing (refusals : List (ControlCall × Errno)) (w : World Script) : World Script :=
  { w with environment :=
    { w.environment with process := { w.environment.process with refusals := refusals } } }

theorem TuningStep.refusing {control : ProcessControl Script} {h : Handle} {pid : Pid}
    (w : World Script) (refusals : List (ControlCall × Errno)) :
    w.TuningStep control scriptTuning h pid (w.refusing refusals) :=
  .aside ⟨rfl, rfl, rfl⟩ rfl

end World

theorem ProcessScript.eq_of_answer {α : Type} {s : ProcessScript} {call : ControlCall}
    {value found : α} (answer : s.answer call value = .ok found) : found = value := by
  unfold ProcessScript.answer at answer
  split at answer
  · cases answer
  · exact (Except.ok.inj answer).symm

theorem Script.tunes_control : Script.control.Tunes World.scriptTuning where
  schedule _ _ := rfl
  scheduled _ _ _ := ProcessScript.eq_of_answer
  priority _ _ := rfl
  prioritized _ _ _ := ProcessScript.eq_of_answer
  setSchedule pid target e answer := by
    simp only [Script.control, ProcessScript.answer] at answer ⊢
    cases refusal : e.process.refusal? .setSchedule with
    | some fault => simp [refusal] at answer
    | none => rfl
  scheduleRefused pid target e fault answer := by
    simp only [Script.control, ProcessScript.answer] at answer ⊢
    cases refusal : e.process.refusal? .setSchedule with
    | some fault => rfl
    | none => simp [refusal] at answer
  setPriority pid target e answer := by
    simp only [Script.control, ProcessScript.answer] at answer ⊢
    cases refusal : e.process.refusal? .setPriority with
    | some fault => simp [refusal] at answer
    | none => rfl
  priorityRefused pid target e fault answer := by
    simp only [Script.control, ProcessScript.answer] at answer ⊢
    cases refusal : e.process.refusal? .setPriority with
    | some fault => rfl
    | none => simp [refusal] at answer

namespace World

/-- A worker is switched to round-robin, is not let back, and is given all the priority there is. At
last it gets back what it had, whatever was refused before. -/
theorem tuning_tracked_refused :
    let control := Script.control
    let h := Handle.standalone 0
    let captured : Schedule := ⟨.fifo, 7⟩
    let script : Script := { process := { schedule := captured, priority := 2147483640 } }
    let origin := start Settings.standard script ⟨0⟩ Calendar.Timestamp.epoch
    let switched := ((origin.setServer control h 42).setRoundRobin control h true).2
    let guarded := switched.refusing [(.setSchedule, .notPermitted)]
    let freed := (guarded.setRoundRobin control h false).2.refusing []
    let w := (freed.changePriority control h 100).2
    (origin.environment.process.refusals = [] ∧
      (guarded.setRoundRobin control h false).1 = .error (.permissionDenied "set_scheduler")) ∧
      w.Tracks control scriptTuning h 42 captured ∧
      (w.session h).schedule = ⟨.roundRobin, 1⟩ ∧
      (scriptTuning w.environment 42).priority = 2147483647 ∧
      (w.setRoundRobin control h false).1 = .ok () ∧
      ((w.setRoundRobin control h false).2.session h).schedule = captured := by
  intro control h captured script origin switched guarded freed w
  have found : (control.schedule 42 origin.environment).1 = .ok captured := rfl
  have run : TuningRun control scriptTuning h 42 (origin.setServer control h 42) w :=
    ((((Relation.ReflTransGen.single (.setRoundRobin true)).tail (.refusing switched _)).tail
      (.setRoundRobin false)).tail (.refusing _ [])).tail (.changePriority 100)
  exact ⟨⟨rfl, by decide⟩, tuning_tracked Script.tunes_control found run, by decide, by decide,
    by decide, by decide⟩

end World

end Supervisor
