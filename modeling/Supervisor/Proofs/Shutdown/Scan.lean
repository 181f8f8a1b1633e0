import Supervisor.Proofs.Journal.Turn
import Supervisor.Proofs.Termination

/-!
# The scan for shutdowns

A shutdown is due once its delay has passed since it was asked for. The scan works out the deadline
of every session that is handed out, valid or not, and an instant that the clock cannot show aborts
it. So a delay that is long enough keeps the shutdowns of all other sessions from being carried out:
`scans_iff` says that the scan comes to its end exactly if no request is of that kind.
-/

set_option autoImplicit false
set_option relaxedAutoImplicit false

namespace Supervisor

/-! ### Deadlines -/

namespace ShutdownIntent

/-- The clock can show the deadline, if there is one. -/
def Dated (intent : ShutdownIntent) : Prop :=
  intent.enabled = true →
    intent.requestedAt.nanos + intent.delay.nanos < 2 ^ 63 * nanosPerSecond

/-- The delay has passed. -/
def Due (intent : ShutdownIntent) (now : Instant) : Prop :=
  intent.enabled = true ∧ intent.requestedAt.nanos + intent.delay.nanos ≤ now.nanos

instance (intent : ShutdownIntent) : Decidable intent.Dated :=
  inferInstanceAs (Decidable (_ → _))

instance (intent : ShutdownIntent) (now : Instant) : Decidable (intent.Due now) :=
  inferInstanceAs (Decidable (_ ∧ _))

variable {intent : ShutdownIntent}

theorem isDue_of_dated (dated : intent.Dated) (now : Instant) :
    ∃ due : Bool, intent.isDue now = .ok due ∧ (due = true ↔ intent.Due now) := by
  unfold isDue deadline
  by_cases enabled : intent.enabled = true
  · rw [if_pos enabled, Instant.after?, if_pos (dated enabled)]
    exact ⟨_, rfl, decide_eq_true_iff.trans (and_iff_right enabled).symm⟩
  · rw [if_neg enabled]
    exact ⟨false, rfl, iff_of_false nofun fun due ↦ enabled due.1⟩

theorem isDue_of_not_dated (undated : ¬ intent.Dated) (now : Instant) :
    intent.isDue now = .error .overflow := by
  obtain ⟨enabled, beyond⟩ := Classical.not_imp.mp undated
  unfold isDue deadline
  rw [if_pos enabled, Instant.after?, if_neg beyond]
  rfl

end ShutdownIntent

/-- A termination leaves the session terminated. -/
def Session.Stoppable (s : Session) : Prop :=
  s.invalidated = true → s.terminated = true

namespace World

variable {σ : Type} {control : ProcessControl σ} {w : World σ} {hs : List Handle} {h : Handle}

/-- The clock can show the deadline of the session. -/
def Dated (w : World σ) (h : Handle) : Prop :=
  ∀ intent ∈ requestedIntent? h w.journal, intent.Dated

/-- The shutdown of the session is due. -/
def Due (w : World σ) (now : Instant) (h : Handle) : Prop :=
  ∃ intent ∈ requestedIntent? h w.journal, intent.Due now

instance (w : World σ) (h : Handle) : Decidable (w.Dated h) :=
  inferInstanceAs (Decidable (∀ intent ∈ requestedIntent? h w.journal, intent.Dated))

instance (w : World σ) (now : Instant) (h : Handle) : Decidable (w.Due now h) :=
  inferInstanceAs (Decidable (∃ intent ∈ requestedIntent? h w.journal, intent.Due now))

/-- The scan comes to its end with these sessions and terminates them. -/
structure Scans (control : ProcessControl σ) (now : Instant) (w : World σ) (hs : List Handle) :
    Prop where
  due : w.due now = .ok hs
  mem : ∀ h, h ∈ hs ↔ h ∈ w.active ∧ (w.session h).valid = true ∧ w.Due now h
  runDue : w.runDue control now =
    (.ok (w.terminateAll control hs).1, (w.terminateAll control hs).2)
  terminated : ∀ h ∈ hs, ((w.runDue control now).2.session h).terminated = true

/-! ### Going through the sessions -/

section

variable (asked : ∀ h, (w.session h).intent = requestedIntent? h w.journal)

include asked

theorem isDue_of_dated (dated : w.Dated h) (now : Instant) :
    ∃ due : Bool, w.isDue now h = .ok due ∧ (due = true ↔ w.Due now h) := by
  unfold isDue
  cases request : (w.session h).intent with
  | none =>
    refine ⟨false, rfl, iff_of_false nofun ?_⟩
    rintro ⟨intent, found, -⟩
    rw [← asked, request] at found
    exact Option.not_mem_none intent found
  | some intent =>
    have found := (asked h).symm.trans request
    obtain ⟨due, outcome, passed⟩ := ShutdownIntent.isDue_of_dated (dated intent found) now
    refine ⟨due, outcome, passed.trans ⟨fun due ↦ ⟨intent, found, due⟩, ?_⟩⟩
    rintro ⟨other, found', due⟩
    obtain rfl := Option.some.inj (found.symm.trans found')
    exact due

theorem isDue_of_not_dated (undated : ¬ w.Dated h) (now : Instant) :
    w.isDue now h = .error .overflow := by
  obtain ⟨intent, undated⟩ := not_forall.mp undated
  obtain ⟨found, undated⟩ := Classical.not_imp.mp undated
  unfold isDue
  rw [asked, found]
  exact ShutdownIntent.isDue_of_not_dated undated now

theorem dueAmong_eq_filter (dated : ∀ h ∈ hs, w.Dated h) (now : Instant) :
    w.dueAmong now hs =
      .ok (hs.filter fun h ↦ (w.session h).valid = true ∧ w.Due now h) := by
  induction hs with
  | nil => rfl
  | cons h hs ih =>
    obtain ⟨due, outcome, passed⟩ := isDue_of_dated asked (dated h List.mem_cons_self) now
    have taken : (due && (w.session h).valid) =
        decide ((w.session h).valid = true ∧ w.Due now h) := by
      rw [Bool.eq_iff_iff, Bool.and_eq_true, passed, and_comm, decide_eq_true_iff]
    rw [dueAmong, outcome, ih fun k later ↦ dated k (List.mem_cons_of_mem h later),
      List.filter_cons, ← taken]
    rfl

theorem dueAmong_of_dated (dated : ∀ h ∈ hs, w.Dated h) (now : Instant) :
    ∃ found, w.dueAmong now hs = .ok found ∧
      ∀ h, h ∈ found ↔ h ∈ hs ∧ (w.session h).valid = true ∧ w.Due now h :=
  ⟨_, dueAmong_eq_filter asked dated now, fun h ↦ by rw [List.mem_filter, decide_eq_true_iff]⟩

theorem dueAmong_of_not_dated (beyond : ∃ h ∈ hs, ¬ w.Dated h) (now : Instant) :
    w.dueAmong now hs = .error .overflow := by
  induction hs with
  | nil =>
    obtain ⟨h, found, -⟩ := beyond
    exact absurd found List.not_mem_nil
  | cons h hs ih =>
    rw [dueAmong]
    by_cases dated : w.Dated h
    · obtain ⟨due, outcome, -⟩ := isDue_of_dated asked dated now
      obtain ⟨k, found, undated⟩ := beyond
      have later : k ∈ hs := by
        refine (List.mem_cons.mp found).resolve_left fun same ↦ ?_
        exact undated (same ▸ dated)
      rw [outcome, ih ⟨k, later, undated⟩]
      rfl
    · rw [isDue_of_not_dated asked dated]
      rfl

end

/-! ### Terminating what is due -/

theorem proxy_terminate_of_ne {k : Handle} (other : k ≠ h) :
    (w.terminate control h).2.proxy k = w.proxy k := by
  by_cases ended : ((w.session h).terminated || (w.session h).invalidated) = true
  · rw [terminate_of_ended control h w ended]
  · obtain ⟨-, -, -, -, proxies⟩ := terminate_of_going control h w (eq_false_of_ne_true ended)
    rw [proxies, proxy_modify_of_ne _ _ other]

theorem session_terminate_of_ne {k : Handle} (other : k ≠ h) :
    (w.terminate control h).2.session k = w.session k :=
  congrArg Proxy.session (proxy_terminate_of_ne other)

theorem terminated_terminate (stoppable : (w.session h).Stoppable) :
    ((w.terminate control h).2.session h).terminated = true := by
  rw [session_terminate]
  split
  next ended =>
    rw [Bool.or_eq_true] at ended
    exact ended.elim id stoppable
  · rfl

theorem terminated_terminate_of_terminated {k : Handle} (before : (w.session k).terminated = true) :
    ((w.terminate control h).2.session k).terminated = true := by
  by_cases same : k = h
  · subst same
    exact terminated_terminate fun _ ↦ before
  · rw [session_terminate_of_ne same]
    exact before

theorem stoppable_terminate {k : Handle} (before : (w.session k).Stoppable) :
    ((w.terminate control h).2.session k).Stoppable := by
  by_cases same : k = h
  · subst same
    exact fun _ ↦ terminated_terminate before
  · rw [session_terminate_of_ne same]
    exact before

theorem terminated_terminateAll_of_terminated {k : Handle}
    (before : (w.session k).terminated = true) :
    ((w.terminateAll control hs).2.session k).terminated = true := by
  induction hs generalizing w with
  | nil => exact before
  | cons h hs ih => exact ih (terminated_terminate_of_terminated before)

theorem terminated_terminateAll (stoppable : ∀ h ∈ hs, (w.session h).Stoppable) :
    ∀ h ∈ hs, ((w.terminateAll control hs).2.session h).terminated = true := by
  induction hs generalizing w with
  | nil => exact nofun
  | cons h hs ih =>
    intro k found
    rcases List.mem_cons.mp found with rfl | later
    · have first : ((w.terminate control k).2.session k).terminated = true :=
        terminated_terminate (stoppable k List.mem_cons_self)
      show (((w.terminate control k).2.terminateAll control hs).2.session k).terminated = true
      exact terminated_terminateAll_of_terminated first
    · have rest : ∀ k ∈ hs, ((w.terminate control h).2.session k).Stoppable :=
        fun k later ↦ stoppable_terminate (stoppable k (List.mem_cons_of_mem h later))
      exact ih rest k later

/-! ### When the scan comes to its end -/

/-- The scan comes to its end, and carries out the shutdowns that are due, if the clock can show the
deadline of every session that is handed out, and only then. -/
theorem scans_iff (arises : w.Arises control) (now : Instant) :
    (∃ hs, w.Scans control now hs) ↔ ∀ h ∈ w.active, w.Dated h := by
  have asked (h : Handle) : (w.session h).intent = requestedIntent? h w.journal := by
    rw [← intent_account, ← arises.account_session]
    rfl
  constructor
  · rintro ⟨hs, scans⟩
    by_contra beyond
    have aborted : w.due now = .error .overflow :=
      dueAmong_of_not_dated asked (by simpa using beyond) now
    cases scans.due.symm.trans aborted
  · intro dated
    obtain ⟨hs, found, members⟩ := dueAmong_of_dated asked dated now
    have due : w.due now = .ok hs := found
    have round : w.runDue control now =
        (.ok (w.terminateAll control hs).1, (w.terminateAll control hs).2) := by
      rw [runDue, due]
    refine ⟨hs, due, members, round, ?_⟩
    rw [round]
    -- A session that is valid has not been invalidated.
    refine terminated_terminateAll fun h listed invalidated ↦ ?_
    have valid := ((members h).mp listed).2.1
    rw [arises.coherent h invalidated] at valid
    cases valid

/-- Two sessions of a pool with a request for a shutdown each, after a delay of its own. Only the
second session is valid. -/
def twoRequests (first second : Duration) : World Script :=
  (start Settings.standard {} ⟨0⟩ Calendar.Timestamp.epoch).performAll (Script.host Script.control)
    [.acquire, .requestShutdown (.pooled 0) first true, .acquire,
      .edit (.pooled 1) (.setValid true), .requestShutdown (.pooled 1) second true]

theorem reachable_twoRequests (first second : Duration) :
    (twoRequests first second).Reachable Script.control :=
  (reachable_start Script.control _ _ _ _).performAll (Script.host_orderly Script.control) _

/-- After a minute the request of five seconds is carried out, and that of five minutes is not. -/
theorem scans_of_minutes :
    let w := twoRequests (.ofSeconds 300) (.ofSeconds 5)
    let now : Instant := ⟨60 * nanosPerSecond⟩
    w.Arises Script.control ∧ (∃ hs, w.Scans Script.control now hs) ∧
      w.due now = .ok [.pooled 1] := by
  intro w now
  have arises : w.Arises Script.control := (reachable_twoRequests _ _).arises
  have dated : ∀ h ∈ w.active, w.Dated h := by decide
  exact ⟨arises, (scans_iff arises now).mpr dated, rfl⟩

/-- The longest delay there is, asked for of a session that is not even valid, keeps the shutdown of
the other session from being carried out. -/
theorem due_of_longest :
    let w := twoRequests (.ofSeconds 18446744073709551615) (.ofSeconds 5)
    let now : Instant := ⟨60 * nanosPerSecond⟩
    w.Reachable Script.control ∧ (w.session (.pooled 0)).valid = false ∧
      (w.session (.pooled 1)).valid = true ∧ w.Due now (.pooled 1) ∧
      w.due now = .error .overflow ∧ w.runDue Script.control now = (.error .overflow, w) ∧
      ∀ hs, ¬ w.Scans Script.control now hs := by
  intro w now
  have aborted : w.due now = .error .overflow := rfl
  have round : w.runDue Script.control now = (.error .overflow, w) := by rw [runDue, aborted]
  refine ⟨reachable_twoRequests _ _, rfl, rfl, by decide, aborted, round, fun hs scans ↦ ?_⟩
  cases scans.due.symm.trans aborted

end World

end Supervisor
