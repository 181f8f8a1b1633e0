import Supervisor.World.Sweep

/-!
# A sweep taken apart

What a sweep reports of a session is decided by one last call of `verifyAlive`, the one after which
no further attempt is made: `lastPing` is the world in which it is made, and `judge` is what becomes
of its result (`pingWithRetries_eq`). `visits` are the sessions that a sweep checks, each with the
world in which its turn comes, and `sweepOver_eq` reads report and final world off them.
-/

set_option autoImplicit false
set_option relaxedAutoImplicit false

namespace Supervisor.World

variable {σ : Type}

/-! ### The last attempt -/

/-- The last attempt at a session, with the world in which it is made. -/
def lastPing (host : Host σ) (h : Handle) (retries attempt : Nat) (w : World σ) : Nat × World σ :=
  match retries with
  | 0 => (attempt, w)
  | retries + 1 =>
    match w.verifyAlive host h w.settings.pingTimeout with
    | (.error (.timeout _), w) => lastPing host h retries (attempt + 1) w
    | _ => (attempt, w)

/-- What becomes of the result of the last attempt. -/
def judge (host : Host σ) (h : Handle) (attempt : Nat) :
    Except Fault Unit × World σ → Verdict × World σ
  | (.ok (), w) => (.alive attempt, w)
  | (.error cause, w) =>
    if cause = .invalid ∨ cause.isFatal = false then (.skipped cause, w)
    else w.condemn host.toProcessControl h cause

variable (host : Host σ) (h : Handle)

theorem pingWithRetries_eq (retries attempt : Nat) (w : World σ) :
    w.pingWithRetries host h retries attempt =
      let last := w.lastPing host h retries attempt
      judge host h last.1 (last.2.verifyAlive host h last.2.settings.pingTimeout) := by
  induction retries generalizing attempt w with
  | zero =>
    rw [pingWithRetries, lastPing]
    show _ = judge host h attempt (w.verifyAlive host h w.settings.pingTimeout)
    rcases w.verifyAlive host h w.settings.pingTimeout with ⟨outcome, v⟩
    cases outcome with
    | ok => rfl
    | error cause => cases cause <;> rfl
  | succ retries ih =>
    rw [pingWithRetries, lastPing]
    rcases found : w.verifyAlive host h w.settings.pingTimeout with ⟨outcome, v⟩
    cases outcome with
    | ok =>
      simp only [found]
      rfl
    | error cause =>
      cases cause with
      | timeout span => exact ih (attempt + 1) v
      | _ =>
        simp only [found]
        rfl

/-! ### Visits -/

/-- The sessions that a sweep over `hs` checks, each with the world in which its turn comes. -/
def visits (host : Host σ) : List Handle → World σ → List (Handle × World σ)
  | [], _ => []
  | h :: hs, w =>
    if (w.session h).valid then (h, w) :: visits host hs (w.check host h).2 else visits host hs w

theorem sweepOver_eq (hs : List Handle) (w : World σ) :
    (w.sweepOver host hs).1 = (w.visits host hs).map fun visit ↦
      ((visit.2.session visit.1).id, (visit.2.check host visit.1).1) := by
  induction hs generalizing w with
  | nil => rfl
  | cons h hs ih =>
    rw [sweepOver, visits]
    by_cases valid : (w.session h).valid = true
    · rw [if_pos valid, if_pos valid, List.map_cons, ← ih]
    · rw [if_neg valid, if_neg valid, ih]

theorem mem_of_mem_visits {hs : List Handle} {w : World σ} {visit : Handle × World σ}
    (found : visit ∈ w.visits host hs) : visit.1 ∈ hs := by
  induction hs generalizing w with
  | nil => exact absurd found List.not_mem_nil
  | cons h hs ih =>
    rw [visits] at found
    by_cases valid : (w.session h).valid = true
    · rw [if_pos valid] at found
      rcases List.mem_cons.mp found with rfl | found
      · exact List.mem_cons_self
      · exact List.mem_cons_of_mem _ (ih found)
    · rw [if_neg valid] at found
      exact List.mem_cons_of_mem _ (ih found)

/-- The world in which a session that is checked is first pinged, unless its process is gone. -/
def firstPing? (host : Host σ) (h : Handle) (w : World σ) : Option (World σ) :=
  match (w.session h).pid with
  | none => some w
  | some pid =>
    match w.call (.probed h pid) (host.alive pid) with
    | (false, _) => none
    | (true, w) => some w

end Supervisor.World
