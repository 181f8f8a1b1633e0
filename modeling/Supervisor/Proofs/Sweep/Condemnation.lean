import Mathlib.Tactic.ByContra
import Supervisor.Proofs.Ping.VerifyAlive

/-!
# Whom a sweep terminates

A sweep terminates a session whose last ping failed. While the ping was on its way, the proxy may
have been reset and may hold another session by then. `condemnations` are the terminations of a
sweep that a failed ping is the cause of, and `struck_unreset_iff` says that they are what the sweep
reports and which of them meet the session that was pinged: all of them, except where the link gave
the ping back with a fault after the proxy had been reset. After a reset the wait for a ping ends as
it does after a termination, and the session is skipped; but a fault of the link is reported before
the wait begins.
-/

set_option autoImplicit false
set_option relaxedAutoImplicit false

namespace Supervisor.World

variable {σ : Type}

/-- A termination for want of an answer: the ping was asked for in the world `asked`, and the
session is terminated in the world `struck`. -/
structure Condemnation (σ : Type) where
  owner : Handle
  cause : Fault
  asked : World σ
  struck : World σ

/-- The condemnation that checking a session ends with, if it does. -/
def condemnation? (host : Host σ) (h : Handle) (w : World σ) : Option (Condemnation σ) :=
  (w.firstPing? host h).bind fun v ↦
    let asked := (v.lastPing host h (w.settings.pingAttempts.toNat - 1) 1).2
    match asked.verifyAlive host h asked.settings.pingTimeout with
    | (.ok (), _) => none
    | (.error cause, struck) =>
      if cause = .invalid ∨ cause.isFatal = false then none else some ⟨h, cause, asked, struck⟩

/-- All condemnations of a sweep. -/
def condemnations (host : Host σ) (w : World σ) : List (Condemnation σ) :=
  (w.visits host w.active).filterMap fun visit ↦ visit.2.condemnation? host visit.1

variable {host : Host σ} {h : Handle} {w : World σ} {c : Condemnation σ}

/-- What is known of the failed ping. -/
theorem verifyAlive_of_condemnation (found : w.condemnation? host h = some c) :
    c.owner = h ∧ ∃ v, w.firstPing? host h = some v ∧
      c.asked = (v.lastPing host h (w.settings.pingAttempts.toNat - 1) 1).2 ∧
      c.asked.verifyAlive host h c.asked.settings.pingTimeout = (.error c.cause, c.struck) ∧
      ¬ (c.cause = .invalid ∨ c.cause.isFatal = false) := by
  obtain ⟨v, first, found⟩ := Option.bind_eq_some_iff.mp found
  dsimp only at found
  split at found
  · cases found
  next failed =>
    split at found
    · cases found
    next condemned =>
      cases found
      exact ⟨rfl, v, first, rfl, failed, condemned⟩

theorem judge_fst_terminated {attempt : Nat} {outcome : Except Fault Unit} {v : World σ}
    {cause : Fault} {signal : Except Fault Unit}
    (judged : (judge host h attempt (outcome, v)).1 = .terminated cause signal) :
    outcome = .error cause ∧ ¬ (cause = .invalid ∨ cause.isFatal = false) ∧
      (v.terminate host.toProcessControl h).1 = signal := by
  unfold judge at judged
  cases outcome with
  | ok => cases judged
  | error found =>
    dsimp only at judged
    split at judged
    · cases judged
    next condemned =>
      obtain ⟨same, delivered⟩ := Verdict.terminated.inj judged
      subst same
      exact ⟨rfl, condemned, delivered⟩

/-- A check, as far as it comes to pings. -/
theorem check_of_firstPing {v : World σ} (first : w.firstPing? host h = some v) :
    w.check host h = v.pingWithRetries host h (w.settings.pingAttempts.toNat - 1) 1 := by
  unfold firstPing? at first
  unfold check
  dsimp only
  cases worker : (w.session h).pid with
  | none =>
    rw [worker] at first
    cases first
    rfl
  | some pid =>
    simp only [worker] at first
    split at first
    · cases first
    next there =>
      cases first
      simp only [there]

/-- The session of a condemnation is terminated with that cause, in the world where it is struck. -/
theorem check_of_condemnation (found : w.condemnation? host h = some c) :
    w.check host h = c.struck.condemn host.toProcessControl h c.cause := by
  obtain ⟨-, v, first, asked, failed, condemned⟩ := verifyAlive_of_condemnation found
  rw [check_of_firstPing first, pingWithRetries_eq]
  dsimp only
  rw [← asked, failed]
  exact if_neg condemned

/-- A session that is found dead has lost its process or is condemned for its ping. -/
theorem terminated_of_check {cause : Fault} {signal : Except Fault Unit}
    (verdict : (w.check host h).1 = .terminated cause signal) :
    w.firstPing? host h = none ∧ cause = .noSuchProcess ∨
      ∃ c, w.condemnation? host h = some c ∧ c.cause = cause ∧
        (c.struck.terminate host.toProcessControl h).1 = signal := by
  cases first : w.firstPing? host h with
  | none =>
    refine .inl ⟨rfl, ?_⟩
    unfold firstPing? at first
    unfold check at verdict
    cases worker : (w.session h).pid with
    | none =>
      rw [worker] at first
      cases first
    | some pid =>
      simp only [worker] at first verdict
      split at first
      next gone =>
        simp only [gone] at verdict
        exact (Verdict.terminated.inj verdict).1.symm
      · cases first
  | some v =>
    refine .inr ?_
    rcases last : v.lastPing host h (w.settings.pingAttempts.toNat - 1) 1 with ⟨attempt, asked⟩
    rcases failed : asked.verifyAlive host h asked.settings.pingTimeout with ⟨outcome, struck⟩
    rw [check_of_firstPing first, pingWithRetries_eq, last] at verdict
    dsimp only at verdict
    rw [failed] at verdict
    obtain ⟨rfl, condemned, delivered⟩ := judge_fst_terminated verdict
    refine ⟨⟨h, cause, asked, struck⟩, ?_, rfl, delivered⟩
    unfold condemnation?
    rw [first, Option.bind_some, last]
    dsimp only
    rw [failed]
    exact if_neg condemned

/-- Every entry of a sweep's report that says that a session was terminated for another cause than
the loss of its process is a condemnation. -/
theorem exists_condemnation_of_mem_sweep {id : SessionId} {cause : Fault}
    {signal : Except Fault Unit} (reported : (id, .terminated cause signal) ∈ (w.sweep host).1)
    (other : cause ≠ .noSuchProcess) :
    ∃ c ∈ w.condemnations host, c.cause = cause ∧
      (c.struck.terminate host.toProcessControl c.owner).1 = signal := by
  rw [sweep, sweepOver_eq] at reported
  obtain ⟨visit, visited, entry⟩ := List.mem_map.mp reported
  rcases terminated_of_check (Prod.mk.inj entry).2 with ⟨-, gone⟩ | ⟨c, found, rfl, delivered⟩
  · exact absurd gone other
  · refine ⟨c, List.mem_filterMap.mpr ⟨visit, visited, found⟩, rfl, ?_⟩
    rw [(verifyAlive_of_condemnation found).1]
    exact delivered

/-- Every condemnation is an entry of the report. -/
theorem exists_mem_sweep (found : c ∈ w.condemnations host) : ∃ id,
    (id, .terminated c.cause (c.struck.terminate host.toProcessControl c.owner).1) ∈
      (w.sweep host).1 := by
  obtain ⟨visit, visited, found⟩ := List.mem_filterMap.mp found
  refine ⟨(visit.2.session visit.1).id, ?_⟩
  rw [sweep, sweepOver_eq, (verifyAlive_of_condemnation found).1]
  exact List.mem_map.mpr ⟨visit, visited, by rw [check_of_condemnation found]; rfl⟩

/-! ### Whom it meets -/

/-- The link kept the last ping until the proxy had been reset, and then gave it back. -/
def Condemnation.Overtaken (host : Host σ) (c : Condemnation σ) : Prop :=
  ∃ link, c.asked.Pings c.owner link ∧ ∃ fault v,
    host.transmit link (c.asked.pingDispatch c.owner link).frame (c.asked.pinging c.owner link) =
      (.error fault, v) ∧
    v.resets c.owner ≠ c.asked.resets c.owner

theorem has_of_mem_active (found : h ∈ w.active) : w.Has h := by
  unfold active at found
  obtain ⟨slot, inUse, rfl⟩ := List.mem_map.mp found
  exact List.mem_range.mp (List.mem_filter.mp inUse).1

/-- The proxy of a condemnation exists when its ping is asked for. -/
theorem has_asked (orderly : host.Orderly) (found : c ∈ w.condemnations host) :
    c.asked.Has c.owner := by
  obtain ⟨visit, visited, found⟩ := List.mem_filterMap.mp found
  obtain ⟨owner, v, first, asked, -, -⟩ := verifyAlive_of_condemnation found
  have gentle := orderly.gentleFrom
  have course := (course_visits host w (gentle w) visited).trans
    ((course_firstPing host visit.1 visit.2 first).trans
      (course_lastPing host visit.1 v (gentle v) (visit.2.settings.pingAttempts.toNat - 1) 1))
  rw [← asked] at course
  rw [owner]
  exact course.has (has_of_mem_active (mem_of_mem_visits host visited))

theorem failed_of_mem_condemnations (found : c ∈ w.condemnations host) :
    c.asked.verifyAlive host c.owner c.asked.settings.pingTimeout = (.error c.cause, c.struck) ∧
      c.cause ≠ .invalid := by
  obtain ⟨visit, visited, found⟩ := List.mem_filterMap.mp found
  obtain ⟨owner, -, -, -, failed, condemned⟩ := verifyAlive_of_condemnation found
  rw [owner]
  exact ⟨failed, fun invalid ↦ condemned (.inl invalid)⟩

/-- A ping that times out has seen no reset. -/
theorem resets_eq_of_timedOut {link : Link} {v : World σ} (known : w.Has h)
    (life : Life h (w.pinging h link) v)
    (waits : (v.proxy h).standing (w.nextPing h) = .timedOut) : v.resets h = w.resets h := by
  have pending : w.nextPing h ∈ (v.proxy h).session.pings := by
    rw [Proxy.standing_eq] at waits
    by_contra gone
    rw [if_neg gone] at waits
    split at waits
    · cases waits
    · cases waits
  rw [life.resets_eq_of_mem_pings (has_pinging known link) (serial_nextPing_lt w h link) pending,
    pinging, resets_note, if_neg (by simp), resets_put]
  rfl

/-- A failure other than `invalid` is that of a ping, or else nothing was done. -/
theorem eq_or_pings {timeout : Duration} {cause : Fault} {v : World σ}
    (failed : w.verifyAlive host h timeout = (.error cause, v)) (other : cause ≠ .invalid) :
    (v = w ∧ ∀ link, ¬ w.Pings h link) ∨ ∃ link, w.Pings h link := by
  by_cases barred : (w.session h).valid = false ∨ (w.session h).terminated = true
  · rw [verifyAlive_of_invalid host w h timeout barred] at failed
    exact absurd (Except.error.inj (Prod.mk.inj failed).1).symm other
  rw [not_or, Bool.not_eq_false, Bool.not_eq_true] at barred
  obtain ⟨valid, going⟩ := barred
  cases connected : (w.session h).link with
  | none =>
    rw [verifyAlive_of_noLink host w h timeout valid going connected] at failed
    refine .inl ⟨(Prod.mk.inj failed).2.symm, fun link pings ↦ ?_⟩
    exact absurd (connected.symm.trans pings.link) (by simp)
  | some link => exact .inr ⟨link, valid, going, connected⟩

/-- A ping that the link has taken can only fail by running out of time. -/
theorem resets_eq_of_taken (orderly : host.Orderly) (known : w.Has h) {link : Link}
    (pings : w.Pings h link) {timeout : Duration} {cause : Fault} {u v : World σ}
    (taken : host.transmit link (w.pingDispatch h link).frame (w.pinging h link) = (.ok (), v))
    (failed : w.verifyAlive host h timeout = (.error cause, u)) (other : cause ≠ .invalid) :
    u.resets h = w.resets h := by
  rw [verifyAlive_of_pings host w h timeout pings, taken] at failed
  obtain ⟨outcome, rfl⟩ := Prod.mk.inj failed
  have waits : (v.proxy h).standing (w.nextPing h) = .timedOut := by
    cases stands : (v.proxy h).standing (w.nextPing h) with
    | answered =>
      rw [stands] at outcome
      cases outcome
    | timedOut => rfl
    | disconnected =>
      rw [stands] at outcome
      exact absurd (Except.error.inj outcome).symm other
  rw [resets_modify, resets_note, if_neg (by simp)]
  exact resets_eq_of_timedOut known (life_of_transmit orderly h taken) waits

theorem resets_eq_iff_not_overtaken (orderly : host.Orderly) (found : c ∈ w.condemnations host) :
    c.struck.resets c.owner = c.asked.resets c.owner ↔ ¬ c.Overtaken host := by
  obtain ⟨failed, other⟩ := failed_of_mem_condemnations found
  rcases eq_or_pings failed other with ⟨struck, silent⟩ | ⟨link, pings⟩
  · rw [struck]
    exact iff_of_true rfl fun ⟨link, pings, _⟩ ↦ silent link pings
  have only {link' : Link} (pings' : c.asked.Pings c.owner link') : link' = link :=
    Option.some.inj (pings'.link.symm.trans pings.link)
  rcases transmitted : host.transmit link (c.asked.pingDispatch c.owner link).frame
    (c.asked.pinging c.owner link) with ⟨sent, v⟩
  cases sent with
  | error fault =>
    rw [verifyAlive_of_pings host c.asked c.owner _ pings, transmitted] at failed
    rw [← (Prod.mk.inj failed).2, resets_modify]
    constructor
    · rintro same ⟨link', pings', fault', v', back, differ⟩
      rw [only pings', transmitted] at back
      rw [(Prod.mk.inj back).2] at same
      exact differ same
    · intro spared
      by_contra differ
      exact spared ⟨link, pings, fault, v, transmitted, differ⟩
  | ok =>
    refine iff_of_true
      (resets_eq_of_taken orderly (has_asked orderly found) pings transmitted failed other) ?_
    rintro ⟨link', pings', fault', v', back, -⟩
    rw [only pings', transmitted] at back
    cases back

/-- What a sweep reports as terminated, other than for the loss of its process, are its
condemnations. Each meets the session that was pinged, unless the link gave the ping back with a
fault after the proxy had been reset; and only then does it meet another one. -/
theorem struck_unreset_iff (orderly : host.Orderly) :
    (∀ id cause signal, (id, .terminated cause signal) ∈ (w.sweep host).1 →
      cause ≠ .noSuchProcess → ∃ c ∈ w.condemnations host, c.cause = cause ∧
        (c.struck.terminate host.toProcessControl c.owner).1 = signal) ∧
    ∀ c ∈ w.condemnations host,
      (∃ id, (id, .terminated c.cause (c.struck.terminate host.toProcessControl c.owner).1) ∈
        (w.sweep host).1) ∧
      (c.struck.resets c.owner = c.asked.resets c.owner ↔ ¬ c.Overtaken host) :=
  ⟨fun _ _ _ reported other ↦ exists_condemnation_of_mem_sweep reported other,
    fun _ found ↦ ⟨exists_mem_sweep found, resets_eq_iff_not_overtaken orderly found⟩⟩

/-- A pool of one valid session whose link takes every ping with the action. -/
def poolOfOne (action : LinkAction) : World Script :=
  let w := (start Settings.standard ({} : Script) ⟨0⟩ Calendar.Timestamp.epoch).acquire.2
  ((Script.connect (.pooled 0) "worker" [action] w).edit (.pooled 0) (.setValid true)).2

theorem reachable_poolOfOne (action : LinkAction) :
    (poolOfOne action).Reachable Script.control := by
  have step (v : World Script) (op : Operation) :=
    Reaches.of_perform (Script.host_orderly Script.control) v op
  refine (reachable_start Script.control Settings.standard {} ⟨0⟩ Calendar.Timestamp.epoch).trans ?_
  exact (((step _ .acquire).change _).trans (step _ (.edit (.pooled 0) (.setLink _)))).trans
    (step _ (.edit (.pooled 0) (.setValid true)))

theorem valid_poolOfOne (action : LinkAction) :
    ((poolOfOne action).session (.pooled 0)).valid = true :=
  rfl

theorem mem_condemnations_poolOfOne {action : LinkAction} {c : Condemnation Script}
    (found : (poolOfOne action).condemnation? (Script.host Script.control) (.pooled 0) = some c) :
    c ∈ (poolOfOne action).condemnations (Script.host Script.control) := by
  refine List.mem_filterMap.mpr ⟨(.pooled 0, poolOfOne action), ?_, found⟩
  show _ ∈ visits _ [.pooled 0] _
  rw [visits, if_pos (valid_poolOfOne action)]
  exact List.mem_cons_self

/-- A worker that never replies is reported, and terminated in the session that was pinged. -/
theorem struck_unreset_of_timeout :
    let host := Script.host Script.control
    let w := poolOfOne {}
    host.Orderly ∧ ∃ c ∈ w.condemnations host, ¬ c.Overtaken host ∧
      ∃ id signal, (id, .terminated (.timeout Settings.standard.pingTimeout) signal) ∈
        (w.sweep host).1 ∧
      ∃ c ∈ w.condemnations host, c.cause = .timeout Settings.standard.pingTimeout ∧
        (c.struck.terminate Script.control c.owner).1 = signal := by
  intro host w
  have told : (w.condemnation? host (.pooled 0)).map (fun c ↦
      (c.cause, c.struck.resets c.owner, c.asked.resets c.owner)) =
        some (.timeout Settings.standard.pingTimeout, 1, 1) := by
    decide
  obtain ⟨c, found, facts⟩ := Option.map_eq_some_iff.mp told
  simp only [Prod.mk.injEq] at facts
  obtain ⟨cause, struck, asked⟩ := facts
  have orderly : host.Orderly := Script.host_orderly Script.control
  obtain ⟨all, each⟩ := struck_unreset_iff (w := w) orderly
  have condemned := mem_condemnations_poolOfOne found
  obtain ⟨⟨id, reported⟩, law⟩ := each c condemned
  rw [cause] at reported
  exact ⟨orderly, c, condemned, law.mp (struck.trans asked.symm), id, _, reported,
    all id _ _ reported (by decide)⟩

/-- A link that fails after its session was reset has the sweep terminate the next session. -/
theorem struck_reset_of_fault :
    let host := Script.host Script.control
    let w := poolOfOne { hooks := [.reset], failure := some (.system .brokenPipe) }
    w.Reachable Script.control ∧ host.Orderly ∧
      (∃ c ∈ w.condemnations host, c.struck.resets c.owner ≠ c.asked.resets c.owner ∧
        w.check host c.owner = c.struck.condemn Script.control c.owner c.cause) ∧
      (w.session (.pooled 0)).valid = true ∧
      ((w.sweep host).2.session (.pooled 0)).terminated = true ∧
      (w.sweep host).2.resets (.pooled 0) = w.resets (.pooled 0) + 1 := by
  intro host w
  have told : (w.condemnation? host (.pooled 0)).map (fun c ↦
      (c.struck.resets c.owner, c.asked.resets c.owner,
        ((c.struck.terminate Script.control (.pooled 0)).2.session (.pooled 0)).terminated,
        (c.struck.terminate Script.control (.pooled 0)).2.resets (.pooled 0))) =
      some (2, 1, true, 2) := by
    decide
  obtain ⟨c, found, facts⟩ := Option.map_eq_some_iff.mp told
  simp only [Prod.mk.injEq] at facts
  obtain ⟨struck, asked, terminated, resets⟩ := facts
  have checked := check_of_condemnation found
  have owner := (verifyAlive_of_condemnation found).1
  have swept : (w.sweep host).2 = (c.struck.terminate Script.control (.pooled 0)).2 := by
    show (w.sweepOver host [.pooled 0]).2 = _
    rw [sweepOver, if_pos (valid_poolOfOne _), checked]
    rfl
  refine ⟨reachable_poolOfOne _, Script.host_orderly Script.control,
    ⟨c, mem_condemnations_poolOfOne found, ?_, owner ▸ checked⟩, valid_poolOfOne _, ?_, ?_⟩
  · rw [struck, asked]
    decide
  · rw [swept, terminated]
  · rw [swept, resets]
    rfl

end Supervisor.World
