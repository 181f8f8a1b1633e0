import Supervisor.Proofs.Settings.Precedence

/-!
# Settings that no ping can meet

A ping needs an attempt and some time. Whatever the text, there is an attempt. The time can be zero,
although a time that is not above zero is refused: what is compared with zero is the number of
seconds, and rounding it to nanoseconds comes after. `Settings.usable_iff` says which texts this
happens for.
-/

set_option autoImplicit false
set_option relaxedAutoImplicit false

namespace Supervisor.Settings

theorem one_le_pingAttempts (text : String) : 1 ≤ (parse text).pingAttempts := by
  have leaves := (parse_leaves text .pingAttempts _).mpr rfl
  rw [current] at leaves
  generalize (parse text).pingAttempts = attempts at leaves
  cases leaves with
  | standard => decide
  | last _ worth =>
    cases worth with
    | pingAttempts _ _ some =>
      rw [UInt32.le_iff_toNat_le, some]
      exact le_max_right _ 1

theorem pingTimeout_of_lastGiven {text : String} {v : List Char} {span : Duration}
    (given : LastGiven .pingTimeout v (linesOf text.toList))
    (seconds : Number.IsSeconds v span) : (parse text).pingTimeout = span := by
  have left := (parse_leaves text .pingTimeout _).mp (.last given (.pingTimeout seconds))
  cases left
  rfl

/-- There is always an attempt, and some time for it unless the last timeout that is given is a
decimal that vanishes. -/
theorem usable_iff (text : String) :
    1 ≤ (parse text).pingAttempts ∧
    (0 < (parse text).pingTimeout.nanos ↔
      ∀ v, LastGiven .pingTimeout v (linesOf text.toList) →
        ∃ seconds, Number.decimal? v = some seconds ∧ Number.vanishing < seconds) := by
  refine ⟨one_le_pingAttempts text, ?_, ?_⟩
  · intro some v given
    obtain ⟨-, -, -, -, ⟨-, _, worth⟩, -⟩ := id given
    cases worth with
    | pingTimeout seconds =>
      have read := Number.readSeconds?_eq_some_iff.mpr seconds
      obtain ⟨value, decimal, law⟩ := Number.pos_readSeconds?_iff read
      rw [pingTimeout_of_lastGiven given seconds] at some
      exact ⟨value, decimal, law.mp some⟩
  · intro all
    have leaves := (parse_leaves text .pingTimeout _).mpr rfl
    rw [current] at leaves
    generalize (parse text).pingTimeout = span at leaves
    cases leaves with
    | standard => decide
    | @last v _ given worth =>
      cases worth with
      | pingTimeout seconds =>
        have read := Number.readSeconds?_eq_some_iff.mpr seconds
        obtain ⟨value, decimal, law⟩ := Number.pos_readSeconds?_iff read
        obtain ⟨value', decimal', above⟩ := all v given
        cases decimal.symm.trans decimal'
        exact law.mpr above

/-- A positive number of seconds, and yet no time. -/
theorem pingTimeout_tenth_nano : (parse "XPD_PING_TIMEOUT=1e-10").pingTimeout = .zero := by
  decide +kernel

end Supervisor.Settings
