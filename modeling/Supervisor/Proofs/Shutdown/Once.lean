import Supervisor.Proofs.Shutdown.Round

/-!
# A shutdown that is carried out once

Nothing but its `valid` flag takes a session out of the scan, since the request stays on record. A
termination clears the flag for good if the session was not terminated before: it is invalidated,
and neither `setValid` nor another request brings it back. A session that had been terminated before
it was made valid is another matter. Its termination in the round comes to nothing, so that it stays
valid and is found by the next round again. `firesOnce_iff` says that there is no other exception.
-/

set_option autoImplicit false
set_option relaxedAutoImplicit false

namespace Supervisor.World

variable {σ : Type} {control : ProcessControl σ} {w w' : World σ} {h : Handle} {now : Instant}
  {turns : List (Handle × World σ)}

/-- The scan comes to its end and lists the session. -/
def Lists (now : Instant) (w : World σ) (h : Handle) : Prop :=
  ∃ hs, w.due now = .ok hs ∧ h ∈ hs

/-- The round comes to its end, and one of the terminations that it reports is that of the
session. -/
def Reports (control : ProcessControl σ) (now : Instant) (w : World σ) (h : Handle) : Prop :=
  ∃ turns, w.due now = .ok (turns.map Prod.fst) ∧ Round control w turns (w.runDue control now).2 ∧
    (w.runDue control now).1 = .ok (turns.map (turnReport control)) ∧ h ∈ turns.map Prod.fst

/-- Whatever happens after the round, no other one reports the session and no scan lists it before
the next reset. A course leads to every state of every run, also to those in the middle of an
operation. -/
def FiresOnce (control : ProcessControl σ) (now : Instant) (w : World σ) (h : Handle) : Prop :=
  ∀ v, Course control (w.runDue control now).2 v →
    v.resets h = (w.runDue control now).2.resets h →
    ∀ later, ¬ v.Reports control later h ∧ ¬ v.Lists later h

/-! ### Who is listed -/

theorem reports_iff : w.Reports control now h ↔ w.Lists now h := by
  constructor
  · rintro ⟨turns, due, -, -, mem⟩
    exact ⟨_, due, mem⟩
  · rintro ⟨hs, due, mem⟩
    obtain ⟨turns, round, handles, report⟩ := round_terminateAll control hs w
    have run : w.runDue control now =
        (.ok (w.terminateAll control hs).1, (w.terminateAll control hs).2) := by
      rw [runDue, due]
    rw [← handles] at due mem
    refine ⟨turns, due, ?_, ?_, mem⟩
    · rw [run]
      exact round
    · rw [run, report]

theorem lists_iff (arises : w.Arises control) :
    w.Lists now h ↔ (∀ k ∈ w.active, w.Dated k) ∧ h ∈ w.dueHandles now := by
  constructor
  · rintro ⟨hs, due, mem⟩
    have dated : ∀ k ∈ w.active, w.Dated k := by
      by_contra beyond
      have aborted : w.due now = .error .overflow :=
        dueAmong_of_not_dated arises.asked (by simpa using beyond) now
      cases aborted.symm.trans due
    obtain rfl := Except.ok.inj ((due_eq_dueHandles arises dated now).symm.trans due)
    exact ⟨dated, mem⟩
  · rintro ⟨dated, mem⟩
    exact ⟨_, due_eq_dueHandles arises dated now, mem⟩

theorem mem_dueHandles :
    h ∈ w.dueHandles now ↔ h ∈ w.active ∧ (w.session h).valid = true ∧ w.Due now h := by
  rw [dueHandles, List.mem_filter, decide_eq_true_iff]

/-- A session that is barred is listed by no scan. -/
theorem not_lists_of_barred (arises : w.Arises control) (barred : (w.session h).Barred) :
    ¬ w.Lists now h := by
  intro lists
  obtain ⟨-, valid, -⟩ := mem_dueHandles.mp ((lists_iff arises).mp lists).2
  cases valid.symm.trans barred.valid

/-! ### What a round leaves behind -/

theorem intent_terminate (k : Handle) :
    ((w.terminate control h).2.session k).intent = (w.session k).intent := by
  by_cases same : k = h
  · subst same
    rw [session_terminate]
    split
    · rfl
    · rfl
  · rw [session_terminate_of_ne same]

theorem Round.intent_eq (round : Round control w turns w') (k : Handle) :
    (w'.session k).intent = (w.session k).intent := by
  induction round with
  | done => rfl
  | turn h _ ih => exact ih.trans (intent_terminate k)

/-- Listing takes no more than being valid, once the round has come to its end. -/
theorem lists_of_valid (arises : w.Arises control) (arises' : w'.Arises control)
    (round : Round control w turns w') (lists : w.Lists now h)
    (valid : (w'.session h).valid = true) : w'.Lists now h := by
  have requested (k : Handle) : requestedIntent? k w'.journal = requestedIntent? k w.journal := by
    rw [← arises'.asked, ← arises.asked, round.intent_eq]
  have active : w'.active = w.active := by
    unfold World.active
    rw [round.inUse_eq]
  obtain ⟨dated, mem⟩ := (lists_iff arises).mp lists
  obtain ⟨handed, -, due⟩ := mem_dueHandles.mp mem
  refine (lists_iff arises').mpr ⟨fun k known ↦ ?_, mem_dueHandles.mpr ⟨?_, valid, ?_⟩⟩
  · rw [Dated, requested]
    exact dated k (active ▸ known)
  · exact active ▸ handed
  · rw [Due, requested]
    exact due

/-- The session after the round is that after its own termination. -/
theorem session_runDue (arises : w.Arises control) (reports : w.Reports control now h) :
    (w.runDue control now).2.session h =
      if ((w.session h).terminated || (w.session h).invalidated) = true then w.session h
      else { { w.session h with terminated := true }.invalidate with pings := [] } := by
  obtain ⟨turns, due, round, -, mem⟩ := reports
  obtain ⟨dated, -⟩ := (lists_iff arises).mp ⟨_, due, mem⟩
  have once : (turns.map Prod.fst).Nodup := by
    rw [Except.ok.inj (due.symm.trans (due_eq_dueHandles arises dated now))]
    exact w.nodup_dueHandles now
  obtain ⟨turn, taken, rfl⟩ := List.mem_map.mp mem
  obtain ⟨before, after⟩ := round.proxy_of_mem once taken
  have same : turn.2.session turn.1 = w.session turn.1 := congrArg Proxy.session before
  rw [← same, ← session_terminate control turn.1 turn.2]
  exact congrArg Proxy.session after

/-! ### When once is all -/

/-- A round that reports a session is the only one to do so, unless the session had been terminated
before it. -/
theorem firesOnce_iff (arises : w.Arises control) (reports : w.Reports control now h) :
    w.FiresOnce control now h ↔ .ended h ∉ lifetime h w.journal := by
  have terminated_iff : (w.session h).terminated = true ↔ .ended h ∈ lifetime h w.journal := by
    rw [← terminated_account_iff, ← arises.account_session]
    rfl
  have valid : (w.session h).valid = true :=
    (mem_dueHandles.mp ((lists_iff arises).mp (reports_iff.mp reports)).2).2.1
  have after : (w.runDue control now).2.Arises control := arises.later (course_runDue w control now)
  have session := session_runDue arises reports
  rw [← terminated_iff]
  constructor
  · intro once terminated
    have still : ((w.runDue control now).2.session h).valid = true := by
      rw [session, if_pos (by rw [terminated, Bool.true_or]), valid]
    obtain ⟨turns, -, round, -, -⟩ := id reports
    exact (once _ .start rfl now).2 (lists_of_valid arises after round (reports_iff.mp reports) still)
  · intro going v course same later
    have free : (w.session h).invalidated = false := by
      by_contra invalidated
      have barred := arises.coherent h (eq_true_of_ne_false invalidated)
      cases valid.symm.trans barred
    have barred : ((w.runDue control now).2.session h).Barred := by
      rw [session, if_neg (by simp [going, free])]
      exact ⟨rfl, by simp [Session.invalidate, valid]⟩
    have unlisted : ¬ v.Lists later h :=
      not_lists_of_barred (after.later course) ((course.life h).barred barred same)
    exact ⟨mt reports_iff.mp unlisted, unlisted⟩

/-- The second session of the pool is shut down after a minute, and that is that. -/
theorem firesOnce_of_minutes :
    let w := twoRequests (.ofSeconds 300) (.ofSeconds 5)
    let now : Instant := ⟨60 * nanosPerSecond⟩
    w.Arises Script.control ∧ w.Reports Script.control now (.pooled 1) ∧
      w.FiresOnce Script.control now (.pooled 1) := by
  intro w now
  have arises : w.Arises Script.control := (reachable_twoRequests _ _).arises
  have reports : w.Reports Script.control now (.pooled 1) :=
    reports_iff.mpr ⟨[.pooled 1], rfl, List.mem_cons_self⟩
  exact ⟨arises, reports, (firesOnce_iff arises reports).mpr (by decide)⟩

/-- A session of a pool that is terminated, made valid and asked to shut down after five seconds. -/
def endedBefore : World Script :=
  (start Settings.standard {} ⟨0⟩ Calendar.Timestamp.epoch).performAll (Script.host Script.control)
    [.acquire, .terminate (.pooled 0), .edit (.pooled 0) (.setValid true),
      .requestShutdown (.pooled 0) (.ofSeconds 5) true]

/-- Each round reports the session again, although nothing happens to it in between. -/
theorem reports_again :
    let w := endedBefore
    let now : Instant := ⟨60 * nanosPerSecond⟩
    let later : Instant := ⟨61 * nanosPerSecond⟩
    let v := (w.runDue Script.control now).2
    w.Reachable Script.control ∧ (∀ h ∈ w.active, w.Dated h) ∧
      w.Reports Script.control now (.pooled 0) ∧ v.Reports Script.control later (.pooled 0) ∧
      v.due later = .ok [.pooled 0] ∧
      (v.runDue Script.control later).1 = .ok [(0, .error .alreadyTerminated)] ∧
      ¬ w.FiresOnce Script.control now (.pooled 0) := by
  intro w now later v
  have reports : w.Reports Script.control now (.pooled 0) :=
    reports_iff.mpr ⟨[.pooled 0], rfl, List.mem_cons_self⟩
  have again : v.Reports Script.control later (.pooled 0) :=
    reports_iff.mpr ⟨[.pooled 0], rfl, List.mem_cons_self⟩
  have reachable : w.Reachable Script.control :=
    (reachable_start Script.control _ _ _ _).performAll (Script.host_orderly Script.control) _
  exact ⟨reachable, by decide, reports, again, rfl, by decide,
    fun once ↦ (once v .start rfl later).1 again⟩

end Supervisor.World
