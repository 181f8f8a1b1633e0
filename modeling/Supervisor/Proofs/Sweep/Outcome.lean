import Mathlib.Data.List.Nodup
import Mathlib.Logic.Function.Iterate
import Supervisor.Proofs.Sweep.Routing

/-!
# What a sweep comes to

Where links only bring in messages of the worker, a sweep has an exact outcome. Every valid session
that is handed out is checked in its turn, in the world that the others before it have left, and
none of them sees anything of the others (`sweep_outcome`).

The check of one session is described by `Outcome`. The pings of a session are what `verifyAlive`
sends when it is called again and again (`tried`). The first one that is decided is the last one
sent; if none is decided, there are as many as the settings allow, and at least one.
-/

set_option autoImplicit false
set_option relaxedAutoImplicit false

namespace Supervisor

variable {σ : Type}

namespace World

/-- The most pings that a session is sent in one sweep. -/
def attempts (w : World σ) : Nat :=
  max 1 w.settings.pingAttempts.toNat

/-- A process is recorded for the worker, and there is no such process any more. -/
def Gone (host : Host σ) (h : Handle) (w : World σ) : Prop :=
  ∃ pid, (w.session h).pid = some pid ∧ (host.alive pid w.environment).1 = false

/-- The world after the process of the worker, if one is recorded, was looked for. -/
def probed (host : Host σ) (h : Handle) (w : World σ) : World σ :=
  match (w.session h).pid with
  | none => w
  | some pid => (w.call (.probed h pid) (host.alive pid)).2

/-- The world after `n` pings of the session, whatever became of them. -/
def tried (host : Host σ) (h : Handle) (n : Nat) (w : World σ) : World σ :=
  (fun u ↦ (u.verifyAlive host h u.settings.pingTimeout).2)^[n] w

/-- The frames of the first `n` pings of the session. -/
def pingFrames (host : Host σ) (h : Handle) (link : Link) (n : Nat) (w : World σ) : List Dispatch :=
  (List.range n).map fun i ↦ (w.tried host h i).pingDispatch h link

/-- None of the first `n` pings of the session is decided. -/
def Undecided (host : Host σ) (h : Handle) (link : Link) (n : Nat) (w : World σ) : Prop :=
  ∀ i < n, (w.tried host h i).decision? host h link = none

/-- What it is to check the session `h` in the world `w`: the verdict and the world after. -/
structure Outcome (host : Host σ) (h : Handle) (w : World σ) (verdict : Verdict)
    (after : World σ) : Prop where
  within : w.Within [h] (after.sent w) after
  gone : w.Gone host h →
    after.sent w = [] ∧ ∃ signal, verdict = .terminated .noSuchProcess signal
  unlinked : ¬ w.Gone host h → (w.session h).link = none →
    after.sent w = [] ∧ ∃ signal, verdict = .terminated .noLink signal
  failed : ¬ w.Gone host h → ∀ link, (w.session h).link = some link →
    ∀ k < w.attempts, (w.probed host h).Undecided host h link k →
      ∀ fault, ((w.probed host h).tried host h k).decision? host h link = some (.error fault) →
        after.sent w = (w.probed host h).pingFrames host h link (k + 1) ∧
          ∃ signal, verdict = .terminated (.transport fault) signal
  answered : ¬ w.Gone host h → ∀ link, (w.session h).link = some link →
    ∀ k < w.attempts, (w.probed host h).Undecided host h link k →
      ((w.probed host h).tried host h k).decision? host h link = some (.ok ()) →
        after.sent w = (w.probed host h).pingFrames host h link (k + 1) ∧ verdict = .alive (k + 1)
  unanswered : ¬ w.Gone host h → ∀ link, (w.session h).link = some link →
    (w.probed host h).Undecided host h link w.attempts →
      after.sent w = (w.probed host h).pingFrames host h link w.attempts ∧
        ∃ signal, verdict = .terminated (.timeout w.settings.pingTimeout) signal
  distinct : ((after.sent w).map Dispatch.message).Nodup
  ended : ∀ cause signal, verdict = .terminated cause signal →
    (after.session h).valid = false

end World

/-- What a sweep needs of a proxy and of the link that it has. -/
structure Proxy.Answerable (host : Host σ) (h : Handle) (p : Proxy) : Prop where
  sound : p.Sound
  coherent : p.session.Coherent
  going : p.session.valid = true → p.session.terminated = false
  routes : ∀ link, p.session.link = some link → host.RoutesTo link h

theorem Proxy.Answerable.later {host : Host σ} {h : Handle} {p p' : Proxy}
    (fit : p.Answerable host h) (steady : p.Steady p') : p'.Answerable host h where
  sound := steady.onward.sound fit.sound
  coherent invalidated := steady.valid.trans (fit.coherent (steady.invalidated ▸ invalidated))
  going valid := steady.terminated.trans (fit.going (steady.valid ▸ valid))
  routes link linked := fit.routes link (steady.link ▸ linked)

namespace World

/-! ### One ping after the other -/

/-- The session can be pinged over a link that brings in messages for it. -/
structure Ready (host : Host σ) (h : Handle) (link : Link) (w : World σ) : Prop where
  pings : w.Pings h link
  sound : (w.proxy h).Sound
  routes : host.RoutesTo link h

variable {host : Host σ} {h : Handle} {link : Link} {w w' : World σ}

theorem Ready.later (ready : w.Ready host h link) (steady : (w.proxy h).Steady (w'.proxy h)) :
    w'.Ready host h link where
  pings := ⟨steady.valid.trans ready.pings.valid, steady.terminated.trans ready.pings.going,
    steady.link.trans ready.pings.link⟩
  sound := steady.onward.sound ready.sound
  routes := ready.routes

theorem tried_succ (n : Nat) : w.tried host h (n + 1) =
    ((w.tried host h n).verifyAlive host h (w.tried host h n).settings.pingTimeout).2 :=
  Function.iterate_succ_apply' _ n w

/-- What `n` pings leave behind. -/
structure TriedTimes (host : Host σ) (h : Handle) (link : Link) (n : Nat) (w w' : World σ) :
    Prop where
  within : w.Within [h] (w.pingFrames host h link n) w'
  steady : (w.proxy h).Steady (w'.proxy h)
  opened : (w'.proxy h).opened = (w.proxy h).opened + n

theorem triedTimes (ready : w.Ready host h link) (n : Nat) :
    w.TriedTimes host h link n (w.tried host h n) := by
  induction n with
  | zero => exact ⟨.refl _ _, .refl _, rfl⟩
  | succ n ih =>
    have still := ready.later ih.steady
    have next := (verifyAlive_of_routes still.routes still.pings still.sound
      (w.tried host h n).settings.pingTimeout).2
    rw [← tried_succ] at next
    refine ⟨?_, ih.steady.trans next.steady, next.opened.trans (congrArg (· + 1) ih.opened)⟩
    rw [pingFrames, List.range_succ, List.map_append]
    exact ih.within.trans next.within

theorem Ready.tried (ready : w.Ready host h link) (n : Nat) :
    (w.tried host h n).Ready host h link :=
  ready.later (triedTimes ready n).steady

/-- Every ping is reported as it was decided. -/
theorem verifyAlive_tried (ready : w.Ready host h link) (n : Nat) :
    (w.tried host h n).verifyAlive host h (w.tried host h n).settings.pingTimeout =
      (reported w.settings.pingTimeout ((w.tried host h n).decision? host h link),
        w.tried host h (n + 1)) := by
  have still := ready.tried n
  rw [tried_succ, (triedTimes ready n).within.settings]
  exact Prod.ext (verifyAlive_of_routes still.routes still.pings still.sound _).1 rfl

/-- Ids are counted up, and there are far fewer attempts than ids. -/
theorem nodup_pingFrames (ready : w.Ready host h link) {n : Nat} (few : n ≤ 2 ^ 64) :
    ((w.pingFrames host h link n).map Dispatch.message).Nodup := by
  rw [pingFrames, List.map_map]
  refine List.nodup_range.map_on fun i below j below' same ↦ ?_
  have serials := congrArg UInt64.toNat (Message.ping.inj same)
  simp only [Ping.id, nextPing, (triedTimes ready _).opened, UInt64.toNat_ofNat'] at serials
  rw [List.mem_range] at below below'
  omega

theorem attempts_le (w : World σ) : w.attempts ≤ 2 ^ 32 := by
  have bound := w.settings.pingAttempts.toNat_lt
  unfold attempts
  omega

/-! ### The last ping -/

theorem lastPing_tried {n retries : Nat} (le : n ≤ retries) (attempt : Nat)
    (early : ∀ i < n, ∃ span, ((w.tried host h i).verifyAlive host h
      (w.tried host h i).settings.pingTimeout).1 = .error (.timeout span))
    (stop : n = retries ∨ ∀ span, ((w.tried host h n).verifyAlive host h
      (w.tried host h n).settings.pingTimeout).1 ≠ .error (.timeout span)) :
    w.lastPing host h retries attempt = (attempt + n, w.tried host h n) := by
  induction n generalizing retries attempt w with
  | zero =>
    cases retries with
    | zero => rfl
    | succ retries =>
      have stops := stop.resolve_left (Nat.succ_ne_zero retries).symm
      rw [lastPing]
      split
      next timedOut => exact absurd (congrArg Prod.fst timedOut) (stops _)
      · rfl
  | succ n ih =>
    cases retries with
    | zero => exact absurd le (Nat.not_succ_le_zero n)
    | succ retries =>
      obtain ⟨span, first⟩ := early 0 (Nat.succ_pos n)
      have timedOut : w.verifyAlive host h w.settings.pingTimeout =
          (.error (.timeout span), w.tried host h 1) :=
        Prod.ext first rfl
      rw [lastPing, timedOut]
      have rest := ih (w := w.tried host h 1) (Nat.le_of_succ_le_succ le) (attempt + 1)
        (fun i below ↦ early (i + 1) (Nat.succ_lt_succ below))
        (stop.imp_left (Nat.succ.inj ·))
      rw [Nat.add_assoc, Nat.add_comm 1] at rest
      exact rest

/-- The first ping that is decided is the last one, or else one after which there is no retry. -/
theorem pingWithRetries_tried (ready : w.Ready host h link) {k retries : Nat} (le : k ≤ retries)
    (early : w.Undecided host h link k)
    (stop : k = retries ∨ (w.tried host h k).decision? host h link ≠ none) :
    w.pingWithRetries host h retries 1 =
      judge host h (k + 1)
        (reported w.settings.pingTimeout ((w.tried host h k).decision? host h link),
          w.tried host h (k + 1)) := by
  have last : w.lastPing host h retries 1 = (1 + k, w.tried host h k) := by
    refine lastPing_tried le 1 (fun i below ↦ ⟨w.settings.pingTimeout, ?_⟩) (stop.imp_right ?_)
    · rw [verifyAlive_tried ready, early i below]
      rfl
    · intro decided span
      rw [verifyAlive_tried ready]
      cases found : (w.tried host h k).decision? host h link with
      | none => exact absurd found decided
      | some sent => cases sent <;> simp [reported, Except.mapError]
  rw [pingWithRetries_eq, last, Nat.add_comm 1 k]
  exact congrArg (judge host h (k + 1)) (verifyAlive_tried ready k)

theorem exists_last (host : Host σ) (h : Handle) (link : Link) (w : World σ) (retries : Nat) :
    ∃ k ≤ retries, w.Undecided host h link k ∧
      (k = retries ∨ (w.tried host h k).decision? host h link ≠ none) := by
  induction retries with
  | zero => exact ⟨0, Nat.le_refl 0, fun _ below ↦ absurd below (Nat.not_lt_zero _), .inl rfl⟩
  | succ retries ih =>
    obtain ⟨k, le, early, stop⟩ := ih
    by_cases decided : (w.tried host h k).decision? host h link = none
    · have last : k = retries := stop.resolve_right (not_not_intro decided)
      subst last
      refine ⟨k + 1, Nat.le_refl _, fun i below ↦ ?_, .inl rfl⟩
      rcases Nat.lt_succ_iff_lt_or_eq.mp below with below | rfl
      · exact early i below
      · exact decided
    · exact ⟨k, Nat.le_succ_of_le le, early, .inr decided⟩

/-! ### One check -/

@[simp] theorem proxy_probed (k : Handle) : (w.probed host h).proxy k = w.proxy k := by
  unfold probed
  split
  · rfl
  · rfl

theorem within_probed (host : Host σ) (h : Handle) (w : World σ) :
    w.Within [h] [] (w.probed host h) := by
  unfold probed
  split
  · exact .refl _ _
  next pid _ => exact .call w (e := .probed h pid) rfl rfl _

theorem check_of_gone (gone : w.Gone host h) :
    w.check host h = (w.probed host h).condemn host.toProcessControl h .noSuchProcess := by
  obtain ⟨pid, worker, exited⟩ := gone
  have answer : (w.call (.probed h pid) (host.alive pid)).1 = false := exited
  unfold check probed
  simp only [worker]
  rcases looked : w.call (.probed h pid) (host.alive pid) with ⟨found, v⟩
  rw [looked] at answer
  cases answer
  rfl

theorem check_of_not_gone (there : ¬ w.Gone host h) :
    w.check host h =
      (w.probed host h).pingWithRetries host h (w.settings.pingAttempts.toNat - 1) 1 := by
  unfold check probed
  cases worker : (w.session h).pid with
  | none => rfl
  | some pid =>
    have answer : (w.call (.probed h pid) (host.alive pid)).1 = true :=
      eq_true_of_ne_false fun exited ↦ there ⟨pid, worker, exited⟩
    simp only
    rcases looked : w.call (.probed h pid) (host.alive pid) with ⟨found, v⟩
    rw [looked] at answer
    cases answer
    rfl

theorem judge_of_fatal {cause : Fault} (fatal : cause.isFatal = true) (valid : cause ≠ .invalid)
    (attempt : Nat) (v : World σ) :
    judge host h attempt (.error cause, v) = v.condemn host.toProcessControl h cause :=
  if_neg (by simp [fatal, valid])

theorem within_judge (attempt : Nat) (outcome : Except Fault Unit) (v : World σ) :
    v.Within [h] [] (judge host h attempt (outcome, v)).2 := by
  unfold judge
  cases outcome with
  | ok => exact .refl _ _
  | error cause =>
    dsimp only
    split
    · exact .refl _ _
    · exact .terminate _ h v

/-- A session that takes a termination, or has been invalidated, is not valid after it. -/
theorem valid_terminate (control : ProcessControl σ) (fit : (w.proxy h).Answerable host h) :
    ((w.terminate control h).2.session h).valid = false := by
  rw [session_terminate]
  split
  next ended =>
    rcases Bool.or_eq_true_iff.mp ended with terminated | invalidated
    · refine eq_false_of_ne_true fun valid ↦ ?_
      exact Bool.false_ne_true ((fit.going valid).symm.trans terminated)
    · exact fit.coherent invalidated
  · rfl

theorem valid_of_judge {attempt : Nat} {outcome : Except Fault Unit} {v : World σ} {cause : Fault}
    {signal : Except Fault Unit} (fit : (v.proxy h).Answerable host h)
    (judged : (judge host h attempt (outcome, v)).1 = .terminated cause signal) :
    ((judge host h attempt (outcome, v)).2.session h).valid = false := by
  unfold judge at judged ⊢
  cases outcome with
  | ok => cases judged
  | error found =>
    dsimp only at judged ⊢
    split at judged
    · cases judged
    next condemned =>
      rw [if_neg condemned]
      exact valid_terminate _ fit

theorem outcome_of_gone (fit : (w.proxy h).Answerable host h) (gone : w.Gone host h) :
    w.Outcome host h (w.check host h).1 (w.check host h).2 := by
  have checked := check_of_gone gone
  have within : w.Within [h] [] (w.check host h).2 := by
    rw [checked]
    exact (within_probed host h w).trans (.terminate _ h _)
  have silent := within.sent_eq
  refine ⟨silent ▸ within, fun _ ↦ ⟨silent, _, congrArg Prod.fst checked⟩, absurd gone,
    absurd gone, absurd gone, absurd gone, ?_, fun cause signal _ ↦ ?_⟩
  · rw [silent]
    exact List.nodup_nil
  · rw [checked]
    exact valid_terminate _ ((proxy_probed h).symm ▸ fit)

section

variable (fit : (w.proxy h).Answerable host h) (valid : (w.session h).valid = true)
include fit valid

theorem ready_probed (linked : (w.session h).link = some link) :
    (w.probed host h).Ready host h link where
  pings := by
    have same : (w.probed host h).session h = w.session h := congrArg Proxy.session (proxy_probed h)
    exact ⟨same ▸ valid, same ▸ fit.going valid, same ▸ linked⟩
  sound := by
    rw [proxy_probed]
    exact fit.sound
  routes := fit.routes link linked

/-- What a check comes to once the last ping is known. -/
theorem check_tried (there : ¬ w.Gone host h) (linked : (w.session h).link = some link) {k : Nat}
    (below : k < w.attempts) (early : (w.probed host h).Undecided host h link k)
    (stop : k + 1 = w.attempts ∨
      ((w.probed host h).tried host h k).decision? host h link ≠ none) :
    w.check host h =
        judge host h (k + 1)
          (reported w.settings.pingTimeout
            (((w.probed host h).tried host h k).decision? host h link),
            (w.probed host h).tried host h (k + 1)) ∧
      w.Within [h] ((w.probed host h).pingFrames host h link (k + 1)) (w.check host h).2 := by
  have ready := ready_probed fit valid linked
  have probed := within_probed host h w
  have checked := check_of_not_gone there
  unfold attempts at below stop
  rw [pingWithRetries_tried ready (by omega) early (stop.imp_left (by omega)), probed.settings]
    at checked
  refine ⟨checked, ?_⟩
  rw [checked]
  exact (probed.trans (triedTimes ready (k + 1)).within).append_nil (within_judge _ _ _)

theorem outcome_of_noLink (there : ¬ w.Gone host h) (linked : (w.session h).link = none) :
    w.Outcome host h (w.check host h).1 (w.check host h).2 := by
  have same : (w.probed host h).session h = w.session h := congrArg Proxy.session (proxy_probed h)
  have checked : w.check host h =
      (w.probed host h).condemn host.toProcessControl h .noLink := by
    rw [check_of_not_gone there, pingWithRetries,
      verifyAlive_of_noLink host _ h _ (same ▸ valid) (same ▸ fit.going valid) (same ▸ linked)]
    rfl
  have within : w.Within [h] [] (w.check host h).2 := by
    rw [checked]
    exact (within_probed host h w).trans (.terminate _ h _)
  have silent := within.sent_eq
  have none {link : Link} : ¬ (w.session h).link = some link := by simp [linked]
  refine ⟨silent ▸ within, fun gone ↦ absurd gone there,
    fun _ _ ↦ ⟨silent, _, congrArg Prod.fst checked⟩, fun _ _ some ↦ absurd some none,
    fun _ _ some ↦ absurd some none, fun _ _ some ↦ absurd some none, ?_, fun cause signal _ ↦ ?_⟩
  · rw [silent]
    exact List.nodup_nil
  · rw [checked]
    exact valid_terminate _ ((proxy_probed h).symm ▸ fit)

theorem outcome_of_link (there : ¬ w.Gone host h) (linked : (w.session h).link = some link) :
    w.Outcome host h (w.check host h).1 (w.check host h).2 := by
  have only {link' : Link} (linked' : (w.session h).link = some link') : link' = link :=
    Option.some.inj (linked'.symm.trans linked)
  have positive : 0 < w.attempts := Nat.lt_of_lt_of_le Nat.one_pos (Nat.le_max_left _ _)
  obtain ⟨last, le, before, stop⟩ :=
    exists_last host h link (w.probed host h) (w.attempts - 1)
  have inside : last < w.attempts := Nat.lt_of_le_pred positive le
  obtain ⟨checked, within⟩ :=
    check_tried fit valid there linked inside before (stop.imp_left (by omega))
  have ready := ready_probed fit valid linked
  constructor
  · exact within.sent_eq.symm ▸ within
  · exact fun gone ↦ absurd gone there
  · exact fun _ noLink ↦ absurd (noLink.symm.trans linked) (by simp)
  · intro _ link' linked' k below early fault decided
    obtain rfl := only linked'
    obtain ⟨checked, within⟩ :=
      check_tried fit valid there linked below early (.inr (by simp [decided]))
    rw [decided] at checked
    exact ⟨within.sent_eq, _, (congrArg Prod.fst checked).trans
      (congrArg Prod.fst (judge_of_fatal rfl (by simp) (k + 1) _))⟩
  · intro _ link' linked' k below early decided
    obtain rfl := only linked'
    obtain ⟨checked, within⟩ :=
      check_tried fit valid there linked below early (.inr (by simp [decided]))
    rw [decided] at checked
    exact ⟨within.sent_eq, congrArg Prod.fst checked⟩
  · intro _ link' linked' never
    obtain rfl := only linked'
    have all : w.attempts - 1 + 1 = w.attempts := Nat.sub_add_cancel positive
    obtain ⟨checked, within⟩ := check_tried fit valid there linked (Nat.sub_one_lt_of_lt positive)
      (fun i below ↦ never i (by omega)) (.inl all)
    rw [never _ (Nat.sub_one_lt_of_lt positive)] at checked
    rw [all] at within
    exact ⟨within.sent_eq, _, (congrArg Prod.fst checked).trans
      (congrArg Prod.fst (judge_of_fatal rfl (by simp) _ _))⟩
  · rw [within.sent_eq]
    exact nodup_pingFrames ready (Nat.le_trans inside (Nat.le_trans w.attempts_le (by decide)))
  · intro cause signal verdict
    rw [checked] at verdict ⊢
    have steady := (triedTimes ready (last + 1)).steady
    rw [proxy_probed] at steady
    exact valid_of_judge (fit.later steady) verdict

theorem outcome_check : w.Outcome host h (w.check host h).1 (w.check host h).2 := by
  by_cases gone : w.Gone host h
  · exact outcome_of_gone fit gone
  cases linked : (w.session h).link with
  | none => exact outcome_of_noLink fit valid gone linked
  | some link => exact outcome_of_link fit valid gone linked

end

/-! ### The whole sweep -/

/-- What it is to sweep over the sessions `hs`: the report and the world after. Each session is
checked in the world that `visits` pairs it with. -/
structure Swept (host : Host σ) (hs : List Handle) (w : World σ)
    (report : List (SessionId × Verdict)) (after : World σ) : Prop where
  checked : (w.visits host hs).map Prod.fst = hs.filter fun h ↦ (w.session h).valid
  report : report = (w.visits host hs).map fun visit ↦
    ((w.session visit.1).id, (visit.2.check host visit.1).1)
  within : w.Within (hs.filter fun h ↦ (w.session h).valid)
    ((w.visits host hs).flatMap fun visit ↦ (visit.2.check host visit.1).2.sent visit.2) after
  found : ∀ visit ∈ w.visits host hs, visit.2.proxy visit.1 = w.proxy visit.1
  left : ∀ visit ∈ w.visits host hs,
    after.proxy visit.1 = (visit.2.check host visit.1).2.proxy visit.1
  outcome : ∀ visit ∈ w.visits host hs, visit.2.Outcome host visit.1
    (visit.2.check host visit.1).1 (visit.2.check host visit.1).2

/-- Sessions that come later do not notice a check. -/
theorem swept_cons {hs : List Handle} (fresh : h ∉ hs) (valid : (w.session h).valid = true)
    (first : w.Outcome host h (w.check host h).1 (w.check host h).2)
    (rest : (w.check host h).2.Swept host hs ((w.check host h).2.sweepOver host hs).1
      ((w.check host h).2.sweepOver host hs).2) :
    w.Swept host (h :: hs) (w.sweepOver host (h :: hs)).1 (w.sweepOver host (h :: hs)).2 := by
  have unseen {k : Handle} (later : k ∈ hs) : (w.check host h).2.proxy k = w.proxy k :=
    first.within.proxies k fun same ↦ fresh (List.mem_singleton.mp same ▸ later)
  have still : hs.filter (fun k ↦ ((w.check host h).2.session k).valid) =
      hs.filter fun k ↦ (w.session k).valid :=
    List.filter_congr fun k later ↦ congrArg (·.session.valid) (unseen later)
  have visits : w.visits host (h :: hs) = (h, w) :: (w.check host h).2.visits host hs := by
    rw [World.visits, if_pos valid]
  have swept : w.sweepOver host (h :: hs) = (((w.session h).id, (w.check host h).1) ::
      ((w.check host h).2.sweepOver host hs).1, ((w.check host h).2.sweepOver host hs).2) := by
    rw [sweepOver, if_pos valid]
  have met : (h :: hs).filter (fun k ↦ (w.session k).valid) =
      h :: hs.filter fun k ↦ (w.session k).valid :=
    List.filter_cons_of_pos valid
  rw [swept]
  constructor
  · rw [visits, met, List.map_cons, rest.checked, still]
  · rw [visits, List.map_cons, rest.report]
    refine congrArg _ (List.map_congr_left fun visit visited ↦ ?_)
    have same := unseen (mem_of_mem_visits host visited)
    exact congrArg (fun p : Proxy ↦ (p.session.id, _)) same
  · rw [visits, met, List.flatMap_cons]
    exact (first.within.mono (by simp)).trans
      ((still ▸ rest.within).mono (List.subset_cons_self _ _))
  · rw [visits]
    intro visit visited
    rcases List.mem_cons.mp visited with rfl | visited
    · rfl
    · exact (rest.found visit visited).trans (unseen (mem_of_mem_visits host visited))
  · rw [visits]
    intro visit visited
    rcases List.mem_cons.mp visited with rfl | visited
    · exact rest.within.proxies _ fun later ↦ fresh (List.mem_filter.mp later).1
    · exact rest.left visit visited
  · rw [visits]
    intro visit visited
    rcases List.mem_cons.mp visited with rfl | visited
    · exact first
    · exact rest.outcome visit visited

theorem swept_sweepOver {hs : List Handle} (nodup : hs.Nodup)
    (fit : ∀ h ∈ hs, (w.proxy h).Answerable host h) :
    w.Swept host hs (w.sweepOver host hs).1 (w.sweepOver host hs).2 := by
  induction hs generalizing w with
  | nil => exact ⟨rfl, rfl, .refl _ _, by simp [visits], by simp [visits], by simp [visits]⟩
  | cons h hs ih =>
    obtain ⟨fresh, nodup⟩ := List.nodup_cons.mp nodup
    have here := fit h List.mem_cons_self
    have later := fun k known ↦ fit k (List.mem_cons_of_mem h known)
    by_cases valid : (w.session h).valid = true
    · have first := outcome_check here valid
      refine swept_cons fresh valid first (ih nodup fun k known ↦ ?_)
      rw [first.within.proxies k fun same ↦ fresh (List.mem_singleton.mp same ▸ known)]
      exact later k known
    · have rest := ih nodup later
      have visits : w.visits host (h :: hs) = w.visits host hs := by
        rw [World.visits, if_neg valid]
      have swept : w.sweepOver host (h :: hs) = w.sweepOver host hs := by
        rw [sweepOver, if_neg valid]
      have passed : (h :: hs).filter (fun k ↦ (w.session k).valid) =
          hs.filter fun k ↦ (w.session k).valid :=
        List.filter_cons_of_neg valid
      rw [swept]
      exact ⟨by rw [visits, passed, rest.checked], by rw [visits]; exact rest.report,
        by rw [visits, passed]; exact rest.within, by rw [visits]; exact rest.found,
        by rw [visits]; exact rest.left, by rw [visits]; exact rest.outcome⟩

theorem nodup_active (w : World σ) : w.active.Nodup :=
  (List.nodup_range.filter _).map fun _ _ same ↦ Handle.pooled.inj same

/-- The outcome of a sweep over links that only bring in messages of the worker, where no valid
session has been terminated. -/
theorem sweep_outcome (arises : w.Arises host.toProcessControl)
    (going : ∀ h ∈ w.active, (w.session h).valid = true → (w.session h).terminated = false)
    (routes : ∀ h ∈ w.active, ∀ link, (w.session h).link = some link → host.RoutesTo link h) :
    w.Swept host w.active (w.sweep host).1 (w.sweep host).2 :=
  swept_sweepOver w.nodup_active fun h known ↦
    ⟨arises.sound h, arises.coherent h, going h known, routes h known⟩

/-- A worker whose first two replies come too late: each is taken in with the next ping. -/
def tardy : Host Nat where
  toProcessControl := { ProcessControl.ofNone Nat with alive := fun _ e ↦ (true, e) }
  transmit _ frame w :=
    let late : PingId := if w.environment < 2 then 1 else 0
    let edits : List Edit :=
      match (Wire.Frame.read (.ofBytes frame)).1 with
      | .ok (.ping id, _) => [.handle (.status 7), .handle (.pingReply (id - late))]
      | _ => []
    (.ok (), { w.takeIn (.pooled 0) edits with environment := w.environment + 1 })

theorem tardy_routesTo (link : Link) : tardy.RoutesTo link (.pooled 0) := by
  intro frame w
  refine ⟨_, fun e told ↦ ?_, rfl, rfl, rfl⟩
  split at told
  · simp only [List.mem_cons, List.not_mem_nil, or_false] at told
    rcases told with rfl | rfl
    · trivial
    · trivial
  · exact absurd told List.not_mem_nil

/-- Replies that come too late do not count for a later ping. -/
theorem sweep_outcome_tardy :
    let h := Handle.pooled 0
    let link : Link := ⟨0, "worker"⟩
    let acquired := (start Settings.standard 0 ⟨0⟩ Calendar.Timestamp.epoch).acquire.2
    let w := ((acquired.edit h (.setLink (some link))).2.edit h (.setValid true)).2
    w.Arises tardy.toProcessControl ∧
      (∀ k ∈ w.active, (w.session k).valid = true → (w.session k).terminated = false) ∧
      (∀ k ∈ w.active, ∀ link, (w.session k).link = some link → tardy.RoutesTo link k) ∧
      (w.sweep tardy).1 = [(0, .alive 3)] ∧ ((w.sweep tardy).2.sent w).length = 3 := by
  intro h link acquired w
  have arises : w.Arises tardy.toProcessControl :=
    (reachable_start _ Settings.standard 0 ⟨0⟩ Calendar.Timestamp.epoch).arises.later
      (((Course.start.acquire).edit h _).edit h _)
  have only {k : Handle} (known : k ∈ w.active) : k = h := List.mem_singleton.mp known
  have going : ∀ k ∈ w.active, (w.session k).valid = true → (w.session k).terminated = false :=
    fun k known _ ↦ only known ▸ rfl
  have routes : ∀ k ∈ w.active, ∀ link, (w.session k).link = some link → tardy.RoutesTo link k :=
    fun k known link _ ↦ only known ▸ tardy_routesTo link
  have swept := sweep_outcome arises going routes
  have visits : w.visits tardy w.active = [(h, w)] := by
    show w.visits tardy [h] = _
    rw [World.visits, if_pos (show (w.session h).valid = true from rfl)]
    rfl
  have unrecorded : (w.session h).pid = none := rfl
  have there : ¬ w.Gone tardy h := by
    rintro ⟨pid, worker, -⟩
    exact absurd (unrecorded.symm.trans worker) (by simp)
  have late : (w.probed tardy h).Undecided tardy h link 2 := by
    intro i below
    have cases : i = 0 ∨ i = 1 := by omega
    rcases cases with rfl | rfl
    · decide
    · decide
  obtain ⟨frames, verdict⟩ := (swept.outcome (h, w) (by simp [visits])).answered there link rfl 2
    (by decide) late (by decide)
  refine ⟨arises, going, routes, ?_, ?_⟩
  · rw [swept.report, visits, List.map_singleton, verdict]
    rfl
  · rw [swept.within.sent_eq, visits, List.flatMap_singleton, frames, pingFrames, List.length_map,
      List.length_range]

end World

end Supervisor
