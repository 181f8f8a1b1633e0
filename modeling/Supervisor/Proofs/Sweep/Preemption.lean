import Supervisor.Proofs.Journal.FirstTermination
import Supervisor.Proofs.Journal.Forward
import Supervisor.Proofs.Ping.Overtaken
import Supervisor.Proofs.Sweep.Condemnation
import Supervisor.Proofs.Sweep.Outcome

/-!
# Who was first

While a sweep waits for a link, somebody else may terminate or invalidate the session that is being
checked. The sweep should then report that it skipped the session, and whom it reports as terminated
it should have terminated itself (`World.Honest`). But the verdict goes by the result of the last
ping alone (`World.finding`), and only one that finds its ping torn down says that somebody else was
first. `sweep_honest_iff` says what else there is (`World.Unnoticed`): a send that failed does
not look at the ping, an answer counts whatever has become of the session, and to be invalidated
does not tear a ping down. And a worker whose process is gone is not asked at all.
-/

set_option autoImplicit false
set_option relaxedAutoImplicit false

namespace Supervisor

/-! ### Sessions that come to an end -/

/-- At some moment, from before the events to after the last of them, the session could not be
terminated any more. -/
def CutShort (h : Handle) (a : Account) (events : List Event) : Prop :=
  ∃ older, older <:+ events ∧ ¬ (older.foldr (Event.tell h) a).Going

section

variable {h : Handle} {a : Account} {e : Event} {events : List Event}

theorem cutShort_nil : CutShort h a [] ↔ ¬ a.Going := by
  simp [CutShort]

theorem cutShort_cons :
    CutShort h a (e :: events) ↔
      ¬ ((e :: events).foldr (Event.tell h) a).Going ∨ CutShort h a events := by
  simp only [CutShort, List.suffix_cons_iff, or_and_right, exists_or, exists_eq_left]

theorem cutShort_append (newer older : List Event) :
    CutShort h a (newer ++ older) ↔
      CutShort h a older ∨ CutShort h (older.foldr (Event.tell h) a) newer := by
  induction newer with
  | nil =>
    rw [List.nil_append, cutShort_nil, iff_self_or]
    exact fun ended ↦ ⟨older, List.suffix_refl older, ended⟩
  | cons e newer ih =>
    rw [List.cons_append, cutShort_cons, cutShort_cons, ih, ← List.cons_append, List.foldr_append,
      or_left_comm]

theorem Event.going_of_tell (live : e ≠ .fresh h) (going : (e.tell h a).Going) : a.Going := by
  cases Event.view live with
  | edited e =>
    rw [tell, if_pos rfl] at going
    refine ⟨(a.edit_eq e).1 ▸ going.terminated, eq_false_of_ne_true fun invalidated ↦ ?_⟩
    have kept := going.invalidated
    unfold Account.edit at kept
    split at kept
    · simp [invalidated] at kept
    · simp [Account.invalidate, invalidated] at kept
    · simp [invalidated] at kept
    · simp [invalidated] at kept
  | requested intent =>
    rw [tell, if_pos rfl] at going
    exact ⟨going.terminated, going.invalidated⟩
  | ended =>
    rw [tell, if_pos rfl] at going
    cases going.terminated
  | recorded pid =>
    rw [tell, if_pos rfl] at going
    exact ⟨going.terminated, going.invalidated⟩
  | aside silent => exact silent a ▸ going

/-- Without a reset there is no way back. -/
theorem CutShort.ended (cut : CutShort h a events) (kept : .fresh h ∉ events) :
    ¬ (events.foldr (Event.tell h) a).Going := by
  induction events with
  | nil => exact cutShort_nil.mp cut
  | cons e events ih =>
    rcases cutShort_cons.mp cut with ended | cut
    · exact ended
    · have live : e ≠ .fresh h := fun fresh ↦ kept (fresh ▸ List.mem_cons_self)
      have before := ih cut fun earlier ↦ kept (List.mem_cons_of_mem e earlier)
      exact fun going ↦ before (Event.going_of_tell live going)

theorem foldr_tell_of_silent (silent : ∀ e ∈ events, ∀ a, e.tell h a = a) (a : Account) :
    events.foldr (Event.tell h) a = a := by
  induction events with
  | nil => rfl
  | cons e events ih =>
    rw [List.foldr_cons, ih fun e found ↦ silent e (List.mem_cons_of_mem _ found),
      silent e List.mem_cons_self]

theorem cutShort_of_silent (silent : ∀ e ∈ events, ∀ a, e.tell h a = a) :
    CutShort h a events ↔ ¬ a.Going := by
  constructor
  · rintro ⟨older, suffix, ended⟩
    rwa [foldr_tell_of_silent fun e found ↦ silent e (suffix.subset found)] at ended
  · exact fun ended ↦ ⟨[], List.nil_suffix, ended⟩

end

namespace World

variable {σ : Type} {u v w : World σ} {h : Handle}

theorem Turns.account_eq (turns : u.Turns v) (h : Handle) :
    (v.session h).account = (v.since u).foldr (Event.tell h) (u.session h).account := by
  have told : ∃ news, v.journal = news ++ u.journal ∧
      (v.session h).account = news.foldr (Event.tell h) (u.session h).account := by
    induction turns with
    | refl => exact ⟨[], rfl, rfl⟩
    | tail _ turn ih =>
      obtain ⟨told, turn⟩ := turn
      obtain ⟨news, journal, account⟩ := ih
      refine ⟨told ++ news, by rw [turn.journal, journal, List.append_assoc], ?_⟩
      rw [turn.accounts, account, List.foldr_append]
  obtain ⟨news, journal, account⟩ := told
  rw [since_eq journal, account]

theorem Turns.since_trans (first : u.Turns v) (second : v.Turns w) :
    w.since u = w.since v ++ v.since u := by
  refine since_eq ?_
  rw [second.journal_eq, first.journal_eq, List.append_assoc, ← first.journal_eq]

/-- By the time of `v`, somebody has put an end to the session, be it that another one has followed
since. -/
def Preempted (h : Handle) (u v : World σ) : Prop :=
  CutShort h (u.session h).account (v.since u)

theorem preempted_trans (first : u.Turns v) (second : v.Turns w) :
    u.Preempted h w ↔ u.Preempted h v ∨ v.Preempted h w := by
  unfold Preempted
  rw [first.since_trans second, cutShort_append, first.account_eq]

theorem Turns.preempted_of_ended (turns : u.Turns v) (ended : ¬ (v.session h).account.Going) :
    u.Preempted h v :=
  ⟨v.since u, List.suffix_refl _, turns.account_eq h ▸ ended⟩

theorem Turns.ended_of_preempted (turns : u.Turns v) (preempted : u.Preempted h v)
    (same : v.resets h = u.resets h) : ¬ (v.session h).account.Going := by
  rw [turns.account_eq h]
  refine CutShort.ended preempted fun fresh ↦ ?_
  have counted := List.count_pos_iff.mpr fresh
  rw [resets, turns.journal_eq, List.count_append] at same
  have base : u.journal.count (.fresh h) = u.resets h := rfl
  omega

/-- Nothing that concerns the session happens from the one to the other. -/
theorem preempted_of_silent (told : List Event) (journal : v.journal = told ++ u.journal)
    (silent : ∀ e ∈ told, ∀ a, e.tell h a = a) :
    u.Preempted h v ↔ ¬ (u.session h).account.Going := by
  unfold Preempted
  rw [since_eq journal, cutShort_of_silent silent]

/-! ### What a verdict goes by -/

variable {host : Host σ}

/-- The world in which the last ping of a check is asked for. -/
def asked (host : Host σ) (h : Handle) (w : World σ) : World σ :=
  ((w.probed host h).lastPing host h (w.settings.pingAttempts.toNat - 1) 1).2

/-- What the check of a session is decided by, and the world in which that is known. -/
def finding (host : Host σ) (h : Handle) (w : World σ) : Except Fault Unit × World σ :=
  if (w.firstPing? host h).isSome then
    (w.asked host h).verifyAlive host h (w.asked host h).settings.pingTimeout
  else (.error .noSuchProcess, w.probed host h)

theorem firstPing?_isSome_iff : (w.firstPing? host h).isSome = true ↔ ¬ w.Gone host h := by
  unfold firstPing? Gone
  cases worker : (w.session h).pid with
  | none => simp
  | some pid =>
    have answer : (w.call (.probed h pid) (host.alive pid)).1 = (host.alive pid w.environment).1 :=
      rfl
    simp only [Option.some.injEq, exists_eq_left', ← answer]
    split
    next gone => simp [gone]
    next there => simp [there]

theorem check_eq_judge (host : Host σ) (h : Handle) (w : World σ) :
    ∃ attempt, w.check host h = judge host h attempt (w.finding host h) := by
  unfold finding
  by_cases there : w.Gone host h
  · rw [if_neg (mt firstPing?_isSome_iff.mp (not_not_intro there)), check_of_gone there]
    exact ⟨0, (judge_of_fatal rfl (by simp) 0 _).symm⟩
  · rw [if_pos (firstPing?_isSome_iff.mpr there), check_of_not_gone there, pingWithRetries_eq]
    exact ⟨_, rfl⟩

theorem course_probed (host : Host σ) (h : Handle) (w : World σ) :
    Course host.toProcessControl w (w.probed host h) := by
  unfold probed
  split
  · exact .start
  · exact .probe .start h _

theorem course_asked (gentle : host.GentleFrom w) (h : Handle) :
    Course host.toProcessControl w (w.asked host h) := by
  have probed := course_probed host h w
  exact probed.trans (course_lastPing host h _ (gentle.later probed) _ 1)

theorem course_finding (gentle : host.GentleFrom w) (h : Handle) :
    Course host.toProcessControl w (w.finding host h).2 := by
  unfold finding
  split
  · have asked := course_asked gentle h
    exact asked.trans (course_verifyAlive host h _ (gentle.later asked) _)
  · exact course_probed host h w

/-! ### The attempts before the last -/

theorem resets_eq_of_timeout (orderly : host.Orderly) (known : w.Has h) {timeout span : Duration}
    (failed : w.verifyAlive host h timeout = (.error (.timeout span), u)) :
    u.resets h = w.resets h := by
  rcases eq_or_pings failed (by simp) with ⟨same, -⟩ | ⟨link, pings⟩
  · rw [same]
  rcases transmitted : host.transmit link (w.pingDispatch h link).frame (w.pinging h link)
    with ⟨sent, v⟩
  cases sent with
  | error fault =>
    rw [verifyAlive_of_pings host w h timeout pings, transmitted] at failed
    cases (Prod.mk.inj failed).1
  | ok => exact resets_eq_of_taken orderly known pings transmitted failed (by simp)

theorem resets_lastPing (orderly : host.Orderly) (known : w.Has h) (retries attempt : Nat) :
    (w.lastPing host h retries attempt).2.resets h = w.resets h := by
  induction retries generalizing w attempt with
  | zero => rfl
  | succ retries ih =>
    have pinged := course_verifyAlive host h w (orderly.gentleFrom w) w.settings.pingTimeout
    rw [lastPing]
    split
    next failed =>
      rw [failed] at pinged
      exact (ih (pinged.has known) _).trans (resets_eq_of_timeout orderly known failed)
    · rfl

theorem resets_probed (host : Host σ) (h : Handle) (w : World σ) :
    (w.probed host h).resets h = w.resets h := by
  unfold probed
  split
  · rfl
  next pid _ => simp [resets]

theorem resets_asked (orderly : host.Orderly) (known : w.Has h) :
    (w.asked host h).resets h = w.resets h :=
  (resets_lastPing orderly ((course_probed host h w).has known) _ 1).trans (resets_probed host h w)

/-! ### Honest verdicts -/

/-- The check ends with the session reported as terminated. -/
def Struck (host : Host σ) (h : Handle) (w : World σ) : Prop :=
  ∃ cause signal, (w.check host h).1 = .terminated cause signal

/-- The verdict on a session tells who put an end to it. -/
structure Honest (host : Host σ) (h : Handle) (w : World σ) : Prop where
  /-- Who is reported as terminated was terminated by the sweep, with all that belongs to it. -/
  struck : ∀ cause signal, (w.check host h).1 = .terminated cause signal →
    (w.finding host h).2.TerminatesFully host.toProcessControl h ∧
      (w.finding host h).2.terminate host.toProcessControl h = (signal, (w.check host h).2)
  /-- Where somebody else was first, the session is skipped. -/
  spared : w.Preempted h (w.finding host h).2 → ∃ cause, (w.check host h).1 = .skipped cause

/-- Somebody else put an end to the session, and the verdict does not take notice of it. -/
inductive Unnoticed (host : Host σ) (h : Handle) (w : World σ) : Prop
  /-- The process is gone, and the session was terminated before it was made valid. -/
  | gone (gone : w.Gone host h) (ended : (w.session h).terminated = true)
  /-- The last ping could not be sent, and meanwhile the session came to its end. -/
  | failed {link : Link} {fault : IoFault} {v : World σ} (there : ¬ w.Gone host h)
      (pings : (w.asked host h).Pings h link)
      (transmitted : host.transmit link ((w.asked host h).pingDispatch h link).frame
        ((w.asked host h).pinging h link) = (.error fault, v))
      (ended : ((w.asked host h).pinging h link).Preempted h v)
  /-- The session came to its end while the last ping was sent, and the ping was answered or was
  left waiting. -/
  | taken {link : Link} {v : World σ} (there : ¬ w.Gone host h)
      (pings : (w.asked host h).Pings h link)
      (transmitted : host.transmit link ((w.asked host h).pingDispatch h link).frame
        ((w.asked host h).pinging h link) = (.ok (), v))
      (ended : ((w.asked host h).pinging h link).Preempted h v)
      (stands : (v.proxy h).standing ((w.asked host h).nextPing h) ≠ .disconnected)

/-- A sweep that was not preempted has all its terminations take effect. -/
theorem honest_iff_spared (turns : w.Turns (w.finding host h).2) :
    w.Honest host h ↔
      (w.Preempted h (w.finding host h).2 → ∃ cause, (w.check host h).1 = .skipped cause) := by
  refine ⟨Honest.spared, fun spared ↦ ⟨fun cause signal verdict ↦ ?_, spared⟩⟩
  have going : ((w.finding host h).2.session h).account.Going := by
    by_contra ended
    obtain ⟨skipped, other⟩ := spared (turns.preempted_of_ended ended)
    exact absurd (verdict.symm.trans other) nofun
  obtain ⟨attempt, checked⟩ := check_eq_judge host h w
  refine ⟨terminatesFully_of_going going, ?_⟩
  rcases found : w.finding host h with ⟨outcome, v⟩
  rw [found] at checked
  rw [checked] at verdict ⊢
  obtain ⟨rfl, condemned, delivered⟩ := judge_fst_terminated verdict
  refine Prod.ext delivered ?_
  rw [judge, if_neg condemned]
  rfl

/-- Who is valid may be terminated, unless that has happened. -/
theorem going_of_valid {control : ProcessControl σ} (arises : w.Arises control)
    (valid : (w.session h).valid = true) (unended : (w.session h).terminated = false) :
    (w.session h).account.Going := by
  refine ⟨unended, eq_false_of_ne_true fun invalidated ↦ ?_⟩
  exact absurd (valid.symm.trans (arises.coherent h invalidated)) nofun

theorem finding_of_gone (gone : w.Gone host h) :
    w.finding host h = (.error .noSuchProcess, w.probed host h) :=
  if_neg (mt firstPing?_isSome_iff.mp (not_not_intro gone))

theorem finding_of_there (there : ¬ w.Gone host h) : w.finding host h =
    (w.asked host h).verifyAlive host h (w.asked host h).settings.pingTimeout :=
  if_pos (firstPing?_isSome_iff.mpr there)

/-- After the link has given a ping back, nothing more happens to the session. -/
theorem landed {link : Link} {sent : Except IoFault Unit} (pings : w.Pings h link)
    (transmitted : host.transmit link (w.pingDispatch h link).frame (w.pinging h link) = (sent, v))
    (timeout : Duration) :
    v.Turns (w.verifyAlive host h timeout).2 ∧
      (v.Preempted h (w.verifyAlive host h timeout).2 ↔ ¬ (v.session h).account.Going) := by
  rw [verifyAlive_of_pings host w h timeout pings, transmitted]
  cases sent with
  | error fault =>
    exact ⟨Turns.modify .refl h ⟨rfl, rfl⟩, preempted_of_silent [] rfl (by simp)⟩
  | ok =>
    refine ⟨(Turns.note (e := .accepted (w.pingDispatch h link)) .refl trivial).modify h ⟨rfl, rfl⟩,
      ?_⟩
    exact preempted_of_silent [.accepted _] rfl (by simp [Event.tell])

/-- What becomes of a session from its ping to the verdict happens while the ping is sent. -/
theorem preempted_of_pings (orderly : host.Orderly) {link : Link} {sent : Except IoFault Unit}
    (pings : w.Pings h link) (going : (w.session h).account.Going)
    (transmitted : host.transmit link (w.pingDispatch h link).frame (w.pinging h link) = (sent, v))
    (timeout : Duration) :
    w.Preempted h (w.verifyAlive host h timeout).2 ↔ (w.pinging h link).Preempted h v := by
  have handed : w.Turns (w.pinging h link) :=
    (Turns.modify .refl h (f := fun p ↦ p.openPing.2) ⟨rfl, rfl⟩).note
      (e := .offered (w.pingDispatch h link)) trivial
  have given : (w.pinging h link).Turns v := by
    have run := (orderly link (w.pingDispatch h link).frame (w.pinging h link)).course.turns
    rwa [transmitted] at run
  obtain ⟨landing, quiet⟩ := landed pings transmitted timeout
  have unheard : w.Preempted h (w.pinging h link) ↔ ¬ (w.session h).account.Going :=
    preempted_of_silent [.offered _] rfl (by simp [Event.tell])
  rw [preempted_trans handed (given.trans landing), preempted_trans given landing, quiet, unheard,
    or_iff_right (not_not_intro going), or_iff_left_iff_imp]
  exact given.preempted_of_ended

/-! ### What goes unnoticed -/

theorem isFatal_of_verifyAlive {timeout : Duration} {cause : Fault}
    (failed : (w.verifyAlive host h timeout).1 = .error cause) : cause.isFatal = true := by
  rcases barred_or_noLink_or_pings h w with barred | ⟨valid, going, noLink⟩ | ⟨link, pings⟩
  · rw [verifyAlive_of_invalid host w h timeout barred] at failed
    exact Except.error.inj failed ▸ rfl
  · rw [verifyAlive_of_noLink host w h timeout valid going noLink] at failed
    exact Except.error.inj failed ▸ rfl
  · rw [verifyAlive_of_pings host w h timeout pings] at failed
    split at failed
    · exact Except.error.inj failed ▸ rfl
    next v _ =>
      dsimp only at failed
      cases stands : (v.proxy h).standing (w.nextPing h) with
      | answered =>
        rw [stands] at failed
        cases failed
      | timedOut =>
        rw [stands] at failed
        exact Except.error.inj failed ▸ rfl
      | disconnected =>
        rw [stands] at failed
        exact Except.error.inj failed ▸ rfl

/-- A session is skipped for one reason only. -/
theorem skipped_iff (host : Host σ) (h : Handle) (w : World σ) :
    (∃ cause, (w.check host h).1 = .skipped cause) ↔ (w.finding host h).1 = .error .invalid := by
  obtain ⟨attempt, checked⟩ := check_eq_judge host h w
  rcases found : w.finding host h with ⟨outcome, v⟩
  rw [checked, found]
  cases outcome with
  | ok => simp [judge]
  | error cause =>
    have fatal : cause.isFatal = true := by
      by_cases gone : w.Gone host h
      · rw [finding_of_gone gone] at found
        exact Except.error.inj (Prod.mk.inj found).1 ▸ rfl
      · rw [finding_of_there gone] at found
        exact isFatal_of_verifyAlive (congrArg Prod.fst found)
    by_cases invalid : cause = .invalid
    · simp [judge, invalid]
    · simp [judge, invalid, fatal, condemn]

section

variable (orderly : host.Orderly) (arises : w.Arises host.toProcessControl) (known : w.Has h)
  (valid : (w.session h).valid = true)

include orderly known in
/-- As long as nobody puts an end to the session, the time before the last ping does not count. -/
theorem preempted_asked_iff (going : ((w.asked host h).session h).account.Going)
    (later : (w.asked host h).Turns v) : w.Preempted h v ↔ (w.asked host h).Preempted h v := by
  have turns := (course_asked (orderly.gentleFrom w) h).turns
  rw [preempted_trans turns later, or_iff_right]
  exact fun preempted ↦ turns.ended_of_preempted preempted (resets_asked orderly known) going

include orderly arises known in
/-- Where the last ping goes out, the time that it is under way decides. -/
theorem preempted_finding_iff {link : Link} {sent : Except IoFault Unit}
    (there : ¬ w.Gone host h) (pings : (w.asked host h).Pings h link)
    (transmitted : host.transmit link ((w.asked host h).pingDispatch h link).frame
      ((w.asked host h).pinging h link) = (sent, v)) :
    w.Preempted h (w.finding host h).2 ↔ ((w.asked host h).pinging h link).Preempted h v := by
  have asked := course_asked (orderly.gentleFrom w) h
  have going := going_of_valid (arises.later asked) pings.valid pings.going
  have later := (course_verifyAlive host h _ (orderly.gentleFrom (w.asked host h))
    (w.asked host h).settings.pingTimeout).turns
  rw [finding_of_there there, preempted_asked_iff orderly known going later,
    preempted_of_pings orderly pings going transmitted]

include orderly arises known

theorem preempted_of_unnoticed (unnoticed : w.Unnoticed host h) :
    w.Preempted h (w.finding host h).2 ∧ (w.finding host h).1 ≠ .error .invalid := by
  cases unnoticed with
  | gone gone ended =>
    refine ⟨⟨[], List.nil_suffix, fun going ↦ ?_⟩, ?_⟩
    · exact absurd (ended.symm.trans going.terminated) nofun
    · rw [finding_of_gone gone]
      simp
  | failed there pings transmitted ended =>
    refine ⟨(preempted_finding_iff orderly arises known there pings transmitted).mpr ended, ?_⟩
    rw [finding_of_there there, verifyAlive_of_pings host _ h _ pings, transmitted]
    simp
  | taken there pings transmitted ended stands =>
    refine ⟨(preempted_finding_iff orderly arises known there pings transmitted).mpr ended, ?_⟩
    rw [finding_of_there there, verifyAlive_of_pings host _ h _ pings, transmitted]
    exact mt outcomeOf_eq_invalid_iff.mp stands

include valid

theorem unnoticed_of_preempted (preempted : w.Preempted h (w.finding host h).2)
    (unskipped : (w.finding host h).1 ≠ .error .invalid) : w.Unnoticed host h := by
  by_cases gone : w.Gone host h
  · refine .gone gone (eq_true_of_ne_false fun unended ↦ ?_)
    have going := going_of_valid arises valid unended
    rw [finding_of_gone gone] at preempted
    refine (course_probed host h w).turns.ended_of_preempted preempted (resets_probed host h w) ?_
    rwa [session, proxy_probed]
  have asked := course_asked (orderly.gentleFrom w) h
  rw [finding_of_there gone] at unskipped
  rcases barred_or_noLink_or_pings h (w.asked host h) with barred | ⟨valid', unended, noLink⟩ |
    ⟨link, pings⟩
  · rw [verifyAlive_of_invalid host _ h _ barred] at unskipped
    exact absurd rfl unskipped
  · have going := going_of_valid (arises.later asked) valid' unended
    rw [finding_of_there gone, verifyAlive_of_noLink host _ h _ valid' unended noLink] at preempted
    exact absurd going
      (asked.turns.ended_of_preempted preempted (resets_asked orderly known))
  · rcases transmitted : host.transmit link ((w.asked host h).pingDispatch h link).frame
      ((w.asked host h).pinging h link) with ⟨sent, v⟩
    have ended := (preempted_finding_iff orderly arises known gone pings transmitted).mp preempted
    cases sent with
    | error fault => exact .failed gone pings transmitted ended
    | ok =>
      refine .taken gone pings transmitted ended fun stands ↦ unskipped ?_
      rw [verifyAlive_of_pings host _ h _ pings, transmitted]
      exact outcomeOf_eq_invalid_iff.mpr stands

/-- A verdict is honest unless something goes unnoticed. -/
theorem honest_iff_not_unnoticed : w.Honest host h ↔ ¬ w.Unnoticed host h := by
  rw [honest_iff_spared (course_finding (orderly.gentleFrom w) h).turns, skipped_iff]
  constructor
  · intro spared unnoticed
    obtain ⟨preempted, unskipped⟩ := preempted_of_unnoticed orderly arises known unnoticed
    exact unskipped (spared preempted)
  · intro noticed preempted
    by_contra unskipped
    exact noticed (unnoticed_of_preempted orderly arises known valid preempted unskipped)

end

/-! ### Sweeps -/

theorem TerminatesFully.going {control : ProcessControl σ} (full : w.TerminatesFully control h) :
    (w.session h).account.Going := by
  by_contra ended
  have kept : w.terminate control h = (.error .alreadyTerminated, w) := by
    refine terminate_of_ended control h w (eq_true_of_ne_false fun free ↦ ended ?_)
    rw [Bool.or_eq_false_iff] at free
    exact ⟨free.1, free.2⟩
  have grown : (w.terminate control h).2.journal ≠ w.journal := by
    cases worker : (w.session h).pid with
    | none =>
      rw [(full.unsignalled worker).2.2]
      exact List.cons_ne_self _ _
    | some pid =>
      rw [(full.signalled pid worker).2.2]
      intro same
      have longer := congrArg List.length same
      simp only [List.length_cons] at longer
      omega
  exact grown (by rw [kept])

/-- Who was reported as terminated in honesty is not reported so again before a reset. -/
theorem Honest.resets_lt {host' : Host σ} (orderly' : host'.Orderly) (honest : w.Honest host h)
    (struck : w.Struck host h) (later : Course host.toProcessControl (w.check host h).2 u)
    (honest' : u.Honest host' h) (struck' : u.Struck host' h) :
    (w.check host h).2.resets h < (u.finding host' h).2.resets h := by
  obtain ⟨cause, signal, verdict⟩ := struck
  obtain ⟨cause', signal', verdict'⟩ := struck'
  obtain ⟨full, terminated⟩ := honest.struck cause signal verdict
  have going := (honest'.struck cause' signal' verdict').1.going
  have turns : (w.check host h).2.Turns (u.finding host' h).2 :=
    later.turns.trans (course_finding (orderly'.gentleFrom u) h).turns
  refine Nat.lt_of_le_of_ne (turns.resets_le h) fun same ↦ ?_
  have ended : ¬ ((w.check host h).2.session h).account.Going := by
    have lifecycle := full.lifecycle
    rw [terminated] at lifecycle
    exact fun going ↦ going.lifecycle_ne (.inl lifecycle)
  exact turns.ended_of_preempted ⟨[], List.nil_suffix, ended⟩ same.symm going

theorem valid_of_mem_visits {hs : List Handle} {visit : Handle × World σ}
    (found : visit ∈ w.visits host hs) : (visit.2.session visit.1).valid = true := by
  induction hs generalizing w with
  | nil => exact absurd found List.not_mem_nil
  | cons h hs ih =>
    rw [visits] at found
    split at found
    next valid =>
      rcases List.mem_cons.mp found with rfl | found
      · exact valid
      · exact ih found
    · exact ih found

/-- The verdicts of a sweep are honest except where somebody else put an end to a session and the
sweep did not notice. And of two honest reports that a session was terminated, the second is about a
session that came after a reset. -/
theorem sweep_honest_iff (orderly : host.Orderly) (arises : w.Arises host.toProcessControl) :
    ((w.sweep host).1 = (w.visits host w.active).map fun visit ↦
      ((visit.2.session visit.1).id, (visit.2.check host visit.1).1)) ∧
    ∀ visit ∈ w.visits host w.active,
      (visit.2.Honest host visit.1 ↔ ¬ visit.2.Unnoticed host visit.1) ∧
      ∀ (host' : Host σ) (u : World σ), host'.Orderly →
        Course host.toProcessControl (visit.2.check host visit.1).2 u →
        visit.2.Honest host visit.1 → visit.2.Struck host visit.1 →
        u.Honest host' visit.1 → u.Struck host' visit.1 →
          (visit.2.check host visit.1).2.resets visit.1 < (u.finding host' visit.1).2.resets visit.1 := by
  refine ⟨sweepOver_eq host w.active w, fun visit visited ↦ ⟨?_, ?_⟩⟩
  · have course := course_visits host w (orderly.gentleFrom w) visited
    have known := course.has (has_of_mem_active (mem_of_mem_visits host visited))
    exact honest_iff_not_unnoticed orderly (arises.later course) known (valid_of_mem_visits visited)
  · intro host' u orderly' later honest struck honest' struck'
    exact honest.resets_lt orderly' struck later honest' struck'

/-- A pool of one valid session that is pinged once, over a link that takes the ping with the
action. -/
def poolOfOnePing (action : LinkAction) : World Script :=
  let settings : Settings := { Settings.standard with pingAttempts := 1 }
  let w := (start settings ({} : Script) ⟨0⟩ Calendar.Timestamp.epoch).acquire.2
  ((Script.connect (.pooled 0) "worker" [action] w).edit (.pooled 0) (.setValid true)).2

theorem reachable_poolOfOnePing (action : LinkAction) :
    (poolOfOnePing action).Reachable Script.control := by
  have step (v : World Script) (op : Operation) :=
    Reaches.of_perform (Script.host_orderly Script.control) v op
  refine (reachable_start Script.control { Settings.standard with pingAttempts := 1 } {} ⟨0⟩
    Calendar.Timestamp.epoch).trans ?_
  exact (((step _ .acquire).change _).trans (step _ (.edit (.pooled 0) (.setLink _)))).trans
    (step _ (.edit (.pooled 0) (.setValid true)))

theorem visits_poolOfOnePing (action : LinkAction) :
    (poolOfOnePing action).visits (Script.host Script.control) (poolOfOnePing action).active =
      [(.pooled 0, poolOfOnePing action)] := by
  show visits _ [.pooled 0] _ = _
  rw [visits, if_pos (show ((poolOfOnePing action).session (.pooled 0)).valid = true from rfl)]
  rfl

/-- A session that is terminated while it is pinged is skipped. -/
theorem sweep_honest_of_terminated :
    let h := Handle.pooled 0
    let host := Script.host Script.control
    let w := poolOfOnePing { hooks := [.terminate] }
    host.Orderly ∧ w.Arises host.toProcessControl ∧ (h, w) ∈ w.visits host w.active ∧
      w.Preempted h (w.finding host h).2 ∧ w.Honest host h ∧
      ∃ cause, (w.check host h).1 = .skipped cause := by
  intro h host w
  have orderly : host.Orderly := Script.host_orderly Script.control
  have arises : w.Arises host.toProcessControl := (reachable_poolOfOnePing _).arises
  have visited : (h, w) ∈ w.visits host w.active := by
    rw [visits_poolOfOnePing]
    exact List.mem_singleton.mpr rfl
  have known : w.Has h := has_of_mem_active (mem_of_mem_visits host visited)
  have noticed : ¬ w.Unnoticed host h := by
    intro unnoticed
    exact (preempted_of_unnoticed orderly arises known unnoticed).2 (by decide)
  have honest := ((sweep_honest_iff orderly arises).2 (h, w) visited).1.mpr noticed
  have preempted : w.Preempted h (w.finding host h).2 := by
    refine (course_finding (orderly.gentleFrom w) h).turns.preempted_of_ended fun going ↦ ?_
    exact absurd going.terminated (by decide)
  exact ⟨orderly, arises, visited, preempted, honest, honest.spared preempted⟩

/-- A session is invalidated while it is pinged, and the sweep reports that it has terminated the
session. -/
theorem sweep_takes_credit :
    let h := Handle.pooled 0
    let host := Script.host Script.control
    let w := poolOfOnePing { hooks := [.invalidate] }
    w.Reachable Script.control ∧ host.Orderly ∧
      (w.sweep host).1 = [(0, .terminated (.timeout Settings.standard.pingTimeout)
        (.error .alreadyTerminated))] ∧
      w.Preempted h (w.finding host h).2 ∧ .ended h ∉ (w.sweep host).2.journal ∧
      ((w.sweep host).2.session h).lifecycle = .invalid ∧ ¬ w.Honest host h := by
  intro h host w
  have orderly : host.Orderly := Script.host_orderly Script.control
  have found : w.finding host h =
      (.error (.timeout Settings.standard.pingTimeout), (w.finding host h).2) :=
    Prod.ext (by decide) rfl
  have checked : w.check host h =
      (w.finding host h).2.condemn Script.control h (.timeout Settings.standard.pingTimeout) := by
    obtain ⟨attempt, judged⟩ := check_eq_judge host h w
    rw [judged, found]
    exact judge_of_fatal rfl (by simp) attempt _
  have swept : w.sweep host = ([(0, (w.check host h).1)], (w.check host h).2) := by
    show w.sweepOver host [h] = _
    rw [sweepOver, if_pos (show (w.session h).valid = true from rfl)]
    rfl
  have preempted : w.Preempted h (w.finding host h).2 := by
    refine (course_finding (orderly.gentleFrom w) h).turns.preempted_of_ended fun going ↦ ?_
    exact absurd going.invalidated (by decide)
  refine ⟨reachable_poolOfOnePing _, orderly, ?_, preempted, ?_, ?_, ?_⟩
  · rw [swept, checked]
    decide
  · rw [swept, checked]
    decide
  · rw [swept, checked]
    decide
  · intro honest
    obtain ⟨cause, skipped⟩ := honest.spared preempted
    rw [checked] at skipped
    cases skipped

end World

end Supervisor
