import Supervisor.Proofs.Journal.Turn
import Supervisor.Proofs.Termination

/-!
# The first termination

The termination that is the first in its lifetime should signal the worker, end the session for good
and wake whoever waits for it: `World.TerminatesFully`. But a session that ceased to be valid passes
for terminated, and then a termination does nothing. `terminatesFully_iff` says that there is no
other case in which the first one falls short.
-/

set_option autoImplicit false
set_option relaxedAutoImplicit false

namespace Supervisor

theorem Proxy.awaitPing_of_unpinged {p : Proxy} (unpinged : p.session.pings = []) (ping : Ping) :
    (p.awaitPing ping).1 ≠ .timedOut := by
  unfold awaitPing
  rw [unpinged]
  split
  · exact nofun
  · exact nofun

namespace World

variable {σ : Type} (control : ProcessControl σ) (h : Handle) (w : World σ)

/-- Terminating a session does all that a termination is for. -/
structure TerminatesFully : Prop where
  /-- The worker is signalled once, and the answer is what comes back. -/
  signalled : ∀ pid, (w.session h).pid = some pid →
    let sig := (w.proxy h).settings.terminateSignal
    let called := control.signal pid sig w.environment
    let ended := w.terminate control h
    ended.1 = called.1 ∧ ended.2.environment = called.2 ∧
      ended.2.journal = .signalled h pid sig :: .ended h :: w.journal
  /-- Without a process nothing is called. -/
  unsignalled : (w.session h).pid = none →
    let ended := w.terminate control h
    ended.1 = .error .noSuchProcess ∧ ended.2.environment = w.environment ∧
      ended.2.journal = .ended h :: w.journal
  valid : ((w.terminate control h).2.session h).valid = false
  pings : ((w.terminate control h).2.session h).pings = []
  /-- Nobody waits for a ping any longer. -/
  woken : ∀ ping, (((w.terminate control h).2.proxy h).awaitPing ping).1 ≠ .timedOut
  lifecycle : ((w.terminate control h).2.session h).lifecycle = .terminated

variable {control h w}

theorem terminatesFully_of_going (going : (w.session h).account.Going) :
    w.TerminatesFully control h := by
  have session := (session_terminate control h w).trans (if_neg (w.ended_eq_false going))
  have pings : ((w.terminate control h).2.session h).pings = [] := by rw [session]
  refine ⟨fun pid recorded ↦ ?_, fun missing ↦ ?_, ?_, pings, Proxy.awaitPing_of_unpinged pings, ?_⟩
  · rw [terminate_of_recorded control w going recorded]
    exact ⟨rfl, rfl, rfl⟩
  · rw [terminate_of_missing control w going missing]
    exact ⟨rfl, rfl, rfl⟩
  · rw [session]
    rfl
  · rw [session]
    rfl

section

variable (arises : w.Arises control) (first : .ended h ∉ lifetime h w.journal)

include arises first

theorem Arises.terminated_eq_false : (w.session h).terminated = false := by
  have known := mt (terminated_account_iff h w.journal).mp first
  rw [← arises.account_session] at known
  exact eq_false_of_ne_true known

theorem Arises.invalidated_iff :
    (w.session h).invalidated = true ↔ Withdrawn h (lifetime h w.journal) := by
  rw [← invalidated_account_iff first, ← arises.account_session]
  rfl

/-- The first termination since the proxy started as new does all that it is for, unless the session
had been made valid and later not valid any more. -/
theorem terminatesFully_iff :
    w.TerminatesFully control h ↔ ¬ Withdrawn h (lifetime h w.journal) := by
  constructor
  · intro full withdrawn
    have invalidated := (arises.invalidated_iff first).mpr withdrawn
    -- The session passes for terminated and is left as it is.
    have lifecycle := full.lifecycle
    rw [terminate_of_ended control h w (by simp [invalidated]), Session.lifecycle,
      arises.terminated_eq_false first, invalidated] at lifecycle
    cases lifecycle
  · intro kept
    exact terminatesFully_of_going ⟨arises.terminated_eq_false first,
      eq_false_of_ne_true (mt (arises.invalidated_iff first).mp kept)⟩

end

/-- A session with a process and a ping that is waited for, made valid or not. -/
def waitedFor (values : List Bool) : World Script :=
  (start Settings.standard {} ⟨0⟩ Calendar.Timestamp.epoch).performAll (Script.host Script.control)
    (.setServer (.standalone 0) 42 :: .edit (.standalone 0) .openPing ::
      values.map fun value ↦ .edit (.standalone 0) (.setValid value))

theorem reachable_waitedFor (values : List Bool) : (waitedFor values).Reachable Script.control :=
  (reachable_start Script.control _ _ _ _).performAll (Script.host_orderly Script.control) _

/-- A valid session is terminated fully. -/
theorem terminatesFully_of_valid :
    let h := Handle.standalone 0
    let w := waitedFor [true]
    w.Arises Script.control ∧ .ended h ∉ lifetime h w.journal ∧ w.TerminatesFully Script.control h ∧
      (w.session h).pings = [⟨0⟩] ∧ (w.terminate Script.control h).1 = .ok () := by
  intro h w
  have arises : w.Arises Script.control := (reachable_waitedFor _).arises
  have first : .ended h ∉ lifetime h w.journal := by decide
  exact ⟨arises, first, (terminatesFully_iff arises first).mpr (by decide), rfl, rfl⟩

/-- A session that was made valid and then not valid is terminated for the first time: its worker is
not signalled, and whoever waits for the ping goes on waiting. -/
theorem terminate_of_withdrawn :
    let h := Handle.standalone 0
    let w := waitedFor [true, false]
    let ended := w.terminate Script.control h
    w.Reachable Script.control ∧ .ended h ∉ lifetime h w.journal ∧ (w.session h).pid = some 42 ∧
      ended.1 = .error .alreadyTerminated ∧ ended.2.journal = w.journal ∧
      ((ended.2.proxy h).awaitPing ⟨0⟩).1 = .timedOut ∧
      (ended.2.session h).lifecycle = .invalid ∧ ¬ w.TerminatesFully Script.control h := by
  intro h w ended
  refine ⟨reachable_waitedFor _, by decide, rfl, rfl, rfl, rfl, rfl, fun full ↦ ?_⟩
  exact absurd full.lifecycle (by decide)

end World

end Supervisor
