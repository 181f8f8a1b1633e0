import Supervisor.Proofs.Shutdown.Scan
import Supervisor.Proofs.Sweep.Outcome

/-!
# A round of shutdowns

When the clock can show every deadline, a round terminates the sessions that are due and no others,
each of them once and in the order of the slots. A request counts as it was recorded last, whatever
became of the message to the worker. `runDue_round` says so of every world that arises. Nothing that
happens to one session in the round is seen by another: each is as it was when its turn comes, and
stays as its own termination left it.
-/

set_option autoImplicit false
set_option relaxedAutoImplicit false

namespace Supervisor

theorem ShutdownIntent.Due.mono {intent : ShutdownIntent} {now later : Instant}
    (due : intent.Due now) (le : now ≤ later) : intent.Due later :=
  ⟨due.1, Nat.le_trans due.2 le⟩

namespace World

variable {σ : Type} {control : ProcessControl σ} {w w' : World σ} {hs : List Handle}
  {h k : Handle} {turns : List (Handle × World σ)}

/-- Terminations one after the other. A turn is a session with the world in which its termination is
asked for. -/
inductive Round (control : ProcessControl σ) :
    World σ → List (Handle × World σ) → World σ → Prop
  | done (w : World σ) : Round control w [] w
  | turn {w w' : World σ} {turns : List (Handle × World σ)} (h : Handle)
      (rest : Round control (w.terminate control h).2 turns w') :
      Round control w ((h, w) :: turns) w'

/-- What a turn is reported as: the id of the session and what its termination came to. -/
def turnReport (control : ProcessControl σ) (turn : Handle × World σ) :
    SessionId × Except Fault Unit :=
  ((turn.2.session turn.1).id, (turn.2.terminate control turn.1).1)

/-- The sessions whose shutdown is carried out: handed out, valid, and asked to shut down by now. -/
def dueHandles (w : World σ) (now : Instant) : List Handle :=
  w.active.filter fun h ↦ (w.session h).valid = true ∧ w.Due now h

/-- A round carries out the shutdowns that are due, and nothing else. -/
structure CarriesOut (control : ProcessControl σ) (now : Instant) (w : World σ) : Prop where
  due : w.due now = .ok (w.dueHandles now)
  /-- The order is that of the slots, and no session comes twice. -/
  ascending : ∃ slots : List ℕ, slots.Pairwise (· < ·) ∧ w.dueHandles now = slots.map .pooled
  /-- The round is these terminations, and the report is theirs. -/
  round : ∃ turns, Round control w turns (w.runDue control now).2 ∧
    turns.map Prod.fst = w.dueHandles now ∧
    (w.runDue control now).1 = .ok (turns.map (turnReport control)) ∧
    ∀ turn ∈ turns, turn.2.proxy turn.1 = w.proxy turn.1 ∧
      (w.runDue control now).2.proxy turn.1 = (turn.2.terminate control turn.1).2.proxy turn.1
  others : ∀ k ∉ w.dueHandles now, (w.runDue control now).2.proxy k = w.proxy k
  inUse : (w.runDue control now).2.inUse = w.inUse
  /-- What is due stays due. -/
  later : ∀ later, now ≤ later → w.due later = .ok (w.dueHandles later) ∧
    (w.dueHandles now).Sublist (w.dueHandles later)

/-! ### The sessions of a round -/

theorem Due.mono {now later : Instant} (due : w.Due now h) (le : now ≤ later) : w.Due later h := by
  obtain ⟨intent, asked, passed⟩ := due
  exact ⟨intent, asked, passed.mono le⟩

theorem dueHandles_mono {now later : Instant} (le : now ≤ later) :
    (w.dueHandles now).Sublist (w.dueHandles later) := by
  refine List.monotone_filter_right _ fun h holds ↦ ?_
  obtain ⟨valid, due⟩ := of_decide_eq_true holds
  exact decide_eq_true ⟨valid, due.mono le⟩

theorem ascending_dueHandles (w : World σ) (now : Instant) :
    ∃ slots : List ℕ, slots.Pairwise (· < ·) ∧ w.dueHandles now = slots.map .pooled := by
  refine ⟨_, ?_, List.filter_map⟩
  exact (List.pairwise_lt_range.filter _).filter _

theorem nodup_dueHandles (w : World σ) (now : Instant) : (w.dueHandles now).Nodup :=
  w.nodup_active.filter _

/-- The request that counts is the last one on record. -/
theorem Arises.asked (arises : w.Arises control) (h : Handle) :
    (w.session h).intent = requestedIntent? h w.journal := by
  rw [← intent_account, ← arises.account_session]
  rfl

theorem due_eq_dueHandles (arises : w.Arises control) (dated : ∀ h ∈ w.active, w.Dated h)
    (now : Instant) : w.due now = .ok (w.dueHandles now) :=
  dueAmong_eq_filter arises.asked dated now

/-! ### The terminations of a round -/

theorem inUse_terminate : (w.terminate control h).2.inUse = w.inUse := by
  by_cases ended : ((w.session h).terminated || (w.session h).invalidated) = true
  · rw [terminate_of_ended control h w ended]
  · obtain ⟨-, -, -, inUse, -⟩ := terminate_of_going control h w (eq_false_of_ne_true ended)
    exact inUse

namespace Round

theorem inUse_eq (round : Round control w turns w') : w'.inUse = w.inUse := by
  induction round with
  | done => rfl
  | turn h _ ih => exact ih.trans inUse_terminate

theorem proxy_of_notMem (round : Round control w turns w') (other : k ∉ turns.map Prod.fst) :
    w'.proxy k = w.proxy k := by
  induction round with
  | done => rfl
  | turn h _ ih =>
    obtain ⟨ne, rest⟩ := not_or.mp (List.mem_cons.not.mp other)
    exact (ih rest).trans (proxy_terminate_of_ne ne)

/-- A session that has one turn is as it was when the turn comes, and stays as the turn left it. -/
theorem proxy_of_mem (round : Round control w turns w') (once : (turns.map Prod.fst).Nodup)
    {turn : Handle × World σ} (mem : turn ∈ turns) :
    turn.2.proxy turn.1 = w.proxy turn.1 ∧
      w'.proxy turn.1 = (turn.2.terminate control turn.1).2.proxy turn.1 := by
  induction round with
  | done => cases mem
  | turn h rest ih =>
    obtain ⟨fresh, once⟩ := List.nodup_cons.mp once
    rcases List.mem_cons.mp mem with rfl | later
    · exact ⟨rfl, rest.proxy_of_notMem fresh⟩
    · obtain ⟨before, after⟩ := ih once later
      have listed := List.mem_map_of_mem (f := Prod.fst) later
      have ne : turn.1 ≠ h := fun same ↦ fresh (same ▸ listed)
      exact ⟨before.trans (proxy_terminate_of_ne ne), after⟩

end Round

theorem round_terminateAll (control : ProcessControl σ) (hs : List Handle) (w : World σ) :
    ∃ turns, Round control w turns (w.terminateAll control hs).2 ∧ turns.map Prod.fst = hs ∧
      (w.terminateAll control hs).1 = turns.map (turnReport control) := by
  induction hs generalizing w with
  | nil => exact ⟨[], .done w, rfl, rfl⟩
  | cons h hs ih =>
    obtain ⟨turns, round, handles, report⟩ := ih (w.terminate control h).2
    refine ⟨(h, w) :: turns, round.turn h, congrArg (h :: ·) handles, ?_⟩
    rw [List.map_cons, ← report]
    rfl

/-- In every world that arises, a round carries out what is due, as long as the clock can show the
deadlines of the sessions that are handed out. -/
theorem runDue_round (arises : w.Arises control) (dated : ∀ h ∈ w.active, w.Dated h)
    (now : Instant) : w.CarriesOut control now := by
  have due := due_eq_dueHandles arises dated
  have run : w.runDue control now =
      (.ok (w.terminateAll control (w.dueHandles now)).1,
        (w.terminateAll control (w.dueHandles now)).2) := by
    rw [runDue, due now]
  obtain ⟨turns, round, handles, report⟩ := round_terminateAll control (w.dueHandles now) w
  have once : (turns.map Prod.fst).Nodup := handles ▸ w.nodup_dueHandles now
  constructor
  case due => exact due now
  case ascending => exact w.ascending_dueHandles now
  case later => exact fun later le ↦ ⟨due later, dueHandles_mono le⟩
  all_goals rw [run]
  case round => exact ⟨turns, round, handles, congrArg Except.ok report,
    fun turn mem ↦ round.proxy_of_mem once mem⟩
  case others => exact fun k other ↦ round.proxy_of_notMem (handles ▸ other)
  case inUse => exact round.inUse_eq

/-- A minute after a request of five minutes and one of five seconds, the second session is
terminated and nothing happens to the first. -/
theorem round_of_minutes :
    let w := twoRequests (.ofSeconds 300) (.ofSeconds 5)
    let now : Instant := ⟨60 * nanosPerSecond⟩
    w.Arises Script.control ∧ (∀ h ∈ w.active, w.Dated h) ∧ w.CarriesOut Script.control now ∧
      w.dueHandles now = [.pooled 1] ∧
      (w.runDue Script.control now).1 = .ok [(1, .error .noSuchProcess)] := by
  intro w now
  have arises : w.Arises Script.control := (reachable_twoRequests _ _).arises
  have dated : ∀ h ∈ w.active, w.Dated h := by decide
  exact ⟨arises, dated, runDue_round arises dated now, by decide, by decide⟩

end World

end Supervisor
