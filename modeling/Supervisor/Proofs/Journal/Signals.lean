import Supervisor.Proofs.Pool.Ledger

/-!
# One signal in a lifetime

A worker is signalled when a termination takes effect, and in one lifetime of a proxy only one does.
Journals are `Lawful` in this respect: a termination finds a session that may be terminated, and a
signal directly follows the termination that it is sent for. `signalled_once` reads off what this
means for a signal: it is the only one since the proxy started as new, whoever asked for it and
whether or not it was delivered.
-/

set_option autoImplicit false
set_option relaxedAutoImplicit false

namespace Supervisor

/-- By what has happened, the handle stands for a proxy that has been made. -/
def Handle.Known (events : List Event) : Handle → Prop
  | .standalone _ => True
  | .pooled slot => .acquired slot ∈ events

theorem Handle.Known.mono {older newer : List Event} {h : Handle} (known : h.Known older)
    (subset : older ⊆ newer) : h.Known newer := by
  cases h with
  | standalone n => trivial
  | pooled slot => exact subset known

/-- The event is a signal to the worker of the proxy. -/
def Event.signals (h : Handle) : Event → Bool
  | .signalled k _ _ => k = h
  | _ => false

theorem Event.signals_iff {h : Handle} {e : Event} :
    e.signals h = true ↔ ∃ pid sig, e = .signalled h pid sig := by
  cases e with
  | signalled k pid sig => simp [signals]
  | _ => simp [signals]

/-! ### Lawful journals -/

section

variable {signalOf : Handle → Signal}

/-- The past allows for the event. A worker is to be sent the signal that is set for its proxy. -/
def Event.Fits (signalOf : Handle → Signal) (past : List Event) : Event → Prop
  | .ended h => (account h past).Going
  | .signalled h pid sig => ∃ before, past = .ended h :: before ∧
      (account h before).pid = some pid ∧ (h.Known before → sig = signalOf h)
  | _ => True

/-- Each event fits the past that it had. -/
def Lawful (signalOf : Handle → Signal) : List Event → Prop
  | [] => True
  | e :: past => e.Fits signalOf past ∧ Lawful signalOf past

theorem Event.fits_of_plain {e : Event} (plain : e.Plain) (past : List Event) :
    e.Fits signalOf past := by
  cases e with
  | ended | signalled => exact plain.elim
  | _ => trivial

namespace Lawful

variable {events newer older : List Event} {h : Handle} {pid : Pid} {sig : Signal}

theorem of_append (lawful : Lawful signalOf (newer ++ older)) : Lawful signalOf older := by
  induction newer with
  | nil => exact lawful
  | cons e newer ih => exact ih lawful.2

theorem congr {signalOf' : Handle → Signal} (lawful : Lawful signalOf events)
    (same : ∀ h, h.Known events → signalOf' h = signalOf h) : Lawful signalOf' events := by
  induction events with
  | nil => trivial
  | cons e past ih =>
    have earlier (h : Handle) (known : h.Known past) : signalOf' h = signalOf h :=
      same h (known.mono (List.subset_cons_self e past))
    refine ⟨?_, ih lawful.2 earlier⟩
    cases e with
    | ended h => exact lawful.1
    | signalled h pid sig =>
      obtain ⟨before, rfl, recorded, signal⟩ := lawful.1
      refine ⟨before, rfl, recorded, fun known ↦ ?_⟩
      rw [earlier h (known.mono (List.subset_cons_self _ before))]
      exact signal known
    | _ => trivial

/-- The termination that a signal is sent for belongs to the same lifetime. -/
theorem ended_of_signals (lawful : Lawful signalOf events) {e : Event}
    (lived : e ∈ lifetime h events) (signals : e.signals h = true) :
    .ended h ∈ lifetime h events := by
  induction events with
  | nil => exact absurd lived List.not_mem_nil
  | cons newest past ih =>
    by_cases live : newest = .fresh h
    · subst live
      rw [lifetime_fresh] at lived
      exact absurd lived List.not_mem_nil
    rw [lifetime_cons live] at lived ⊢
    refine List.mem_cons_of_mem newest ?_
    rcases List.mem_cons.mp lived with rfl | lived
    · obtain ⟨pid, sig, rfl⟩ := Event.signals_iff.mp signals
      obtain ⟨before, rfl, -⟩ := lawful.1
      rw [lifetime_cons (by simp)]
      exact List.mem_cons_self
    · exact ih lawful.2 lived

section

variable (lawful : Lawful signalOf (.signalled h pid sig :: older))

include lawful

theorem unsignalled : (lifetime h older).countP (·.signals h) = 0 := by
  obtain ⟨⟨before, rfl, -⟩, going, past⟩ := lawful
  rw [lifetime_cons (by simp), List.countP_cons_of_neg (by simp [Event.signals]),
    List.countP_eq_zero]
  intro e lived signals
  have terminated := (terminated_account_iff h before).mpr (past.ended_of_signals lived signals)
  rw [going.terminated] at terminated
  cases terminated

theorem recordedPid?_eq : recordedPid? h older = some pid := by
  obtain ⟨⟨before, rfl, recorded, -⟩, -⟩ := lawful
  rw [← pid_account, account_cons, Event.tell, if_pos rfl]
  exact recorded

theorem signal_eq (known : h.Known older) : sig = signalOf h := by
  obtain ⟨⟨before, rfl, -, signal⟩, -⟩ := lawful
  refine signal ?_
  cases h with
  | standalone n => trivial
  | pooled slot => exact (List.mem_cons.mp known).resolve_left (by simp)

end

theorem countP_signals_le (lawful : Lawful signalOf events) :
    (lifetime h events).countP (·.signals h) ≤ 1 := by
  induction events with
  | nil => exact Nat.zero_le 1
  | cons e past ih =>
    by_cases live : e = .fresh h
    · subst live
      rw [lifetime_fresh]
      exact Nat.zero_le 1
    rw [lifetime_cons live]
    by_cases signals : e.signals h = true
    · obtain ⟨pid, sig, rfl⟩ := Event.signals_iff.mp signals
      rw [List.countP_cons_of_pos signals, lawful.unsignalled]
    · rw [List.countP_cons_of_neg signals]
      exact ih lawful.2

end Lawful

end

/-! ### Journals of runs -/

namespace World

variable {σ : Type} {control : ProcessControl σ} {origin w : World σ}

/-- The signal that is set for the worker of a proxy. -/
def signalOf (w : World σ) (h : Handle) : Signal :=
  (w.proxy h).settings.terminateSignal

/-- A proxy that the journal knows of has been made. -/
theorem Ledger.has (ledger : w.Ledger) {h : Handle} (known : h.Known w.journal) : w.Has h := by
  cases h with
  | standalone n => trivial
  | pooled slot => exact ledger.made slot known

theorem Turn.signalOf_eq {w' : World σ} {told : List Event} (ledger : w.Ledger)
    (turn : w.Turn w' told) {h : Handle} (known : h.Known w.journal) :
    w'.signalOf h = w.signalOf h := by
  rw [signalOf, turn.settings h (ledger.has known), signalOf]

theorem Turns.lawful (untouched : origin.Untouched) (turns : origin.Turns w) :
    Lawful w.signalOf w.journal := by
  induction turns with
  | refl =>
    rw [untouched.2.1]
    trivial
  | @tail w w' before turn ih =>
    obtain ⟨told, turn⟩ := turn
    have ledger := Turns.ledger untouched before
    have session := Turns.account_session untouched before
    have past : Lawful w'.signalOf w.journal :=
      ih.congr fun h known ↦ turn.signalOf_eq ledger known
    rw [turn.journal]
    cases turn.enters with
    | nothing => exact past
    | plain plain => exact ⟨Event.fits_of_plain plain _, past⟩
    | ended going =>
      rw [session] at going
      exact ⟨going, past⟩
    | signalled going recorded =>
      rw [session] at going
      refine ⟨⟨w.journal, rfl, ?_, fun known ↦ ?_⟩, going, past⟩
      · rw [← session]
        exact recorded
      · exact (turn.signalOf_eq ledger known).symm
    | acquired => exact ⟨trivial, trivial, past⟩
    | released => exact ⟨trivial, trivial, past⟩

/-- What is known of the signals that were sent for a proxy, in all its lifetimes. -/
structure SignalledOnce (h : Handle) (w : World σ) : Prop where
  /-- At any moment there was no more than one in the lifetime until then. -/
  once : ∀ newer older, w.journal = newer ++ older → (lifetime h older).countP (·.signals h) ≤ 1
  pid : ∀ newer pid sig older, w.journal = newer ++ .signalled h pid sig :: older →
    recordedPid? h older = some pid
  signal : ∀ newer pid sig older, w.journal = newer ++ .signalled h pid sig :: older →
    h.Known older → sig = (w.proxy h).settings.terminateSignal

/-- In all that ever happens, a worker is signalled once in a lifetime of its proxy at most, with
the signal that is set, and under the process recorded last. -/
theorem signalled_once (arises : w.Arises control) (h : Handle) : w.SignalledOnce h := by
  obtain ⟨origin, untouched, turns⟩ := arises.turns
  have lawful := turns.lawful untouched
  refine ⟨fun newer older split ↦ ?_, fun newer pid sig older split ↦ ?_,
    fun newer pid sig older split known ↦ ?_⟩
  · rw [split] at lawful
    exact lawful.of_append.countP_signals_le
  · rw [split] at lawful
    exact lawful.of_append.recordedPid?_eq
  · rw [split] at lawful
    exact lawful.of_append.signal_eq known

/-- A slot is used twice, and both times its worker is signalled, though no process takes the signal
and the first session is terminated once more. -/
theorem signalled_once_of_reuse :
    let control := ProcessControl.ofNone Unit
    let h := Handle.pooled 0
    let origin := start Settings.standard () ⟨0⟩ Calendar.Timestamp.epoch
    let first := ((origin.acquire.2.setServer control h 42).terminate control h).2
    let freed := ((first.terminate control h).2.release 0).2
    let w := ((freed.acquire.2.setServer control h 43).terminate control h).2
    w.Arises control ∧ w.SignalledOnce h ∧ w.journal.countP (·.signals h) = 2 ∧
      (lifetime h w.journal).countP (·.signals h) = 1 ∧ recordedPid? h w.journal = some 43 := by
  intro control h origin first freed w
  have begun : origin.Arises control := (reachable_start control _ _ _ _).arises
  have used : freed.Arises control :=
    begun.later (.release (.terminate (.terminate (.setServer (.acquire .start) h 42) h) h) 0)
  have arises : w.Arises control := used.later (.terminate (.setServer (.acquire .start) h 43) h)
  exact ⟨arises, signalled_once arises h, by decide, by decide, by decide⟩

end World

end Supervisor
