import Supervisor.Proofs.Number.Seconds
import Supervisor.Proofs.Worker.Names
import Supervisor.Settings.Text

/-!
# Values of settings

`Worth` says for each key which texts are well-formed values and what assignment such a value is
worth: a number of seconds, an integer that fits its word, the name or the number of a signal or of
a policy. `SettingKey.assign?_eq_some_iff` is that these are the assignments that are made.
-/

set_option autoImplicit false
set_option relaxedAutoImplicit false

namespace Supervisor

/-- The text is a well-formed value for the key, and worth the assignment. A number of attempts that
is zero is worth one attempt. -/
inductive Worth : SettingKey → List Char → Assignment → Prop
  | pingTimeout {v : List Char} {span : Duration} (seconds : Number.IsSeconds v span) :
      Worth .pingTimeout v (.pingTimeout span)
  | pingAttempts {v : List Char} {n : ℕ} {attempts : UInt32} (number : Number.Unsigned v n)
      (fits : n < 2 ^ 32) (some : attempts.toNat = max n 1) :
      Worth .pingAttempts v (.pingAttempts attempts)
  | terminateSignal {v : List Char} {sig : Signal} (named : IsSignal v sig) :
      Worth .terminateSignal v (.terminateSignal sig)
  | roundRobinPriority {v : List Char} {priority : Int32}
      (number : Number.Signed v priority.toInt) :
      Worth .roundRobinPriority v (.roundRobinPriority priority)
  | defaultPolicy {v : List Char} {policy : Policy} (named : IsPolicy v policy) :
      Worth .defaultPolicy v (.defaultPolicy policy)
  | defaultPriority {v : List Char} {priority : Int32}
      (number : Number.Signed v priority.toInt) :
      Worth .defaultPriority v (.defaultPriority priority)
  | maxSessions {v : List Char} {n : ℕ} (number : Number.Unsigned v n) (fits : n < 2 ^ 64) :
      Worth .maxSessions v (.maxSessions n)

theorem toNat_max_one (n : UInt32) : (max n 1).toNat = max n.toNat 1 := by
  show (if n ≤ 1 then 1 else n).toNat = _
  have one : (1 : UInt32).toNat = 1 := rfl
  split
  next few =>
    have least : n.toNat ≤ 1 := UInt32.le_iff_toNat_le.mp few
    rw [one, max_eq_right least]
  next many =>
    have more : 1 < n.toNat := UInt32.lt_iff_toNat_lt.mp (UInt32.not_le.mp many)
    rw [max_eq_left more.le]

namespace SettingKey

variable {key : SettingKey} {v : List Char} {a : Assignment}

theorem assign?_eq_some_iff : key.assign? v = some a ↔ Worth key v a := by
  constructor
  · intro read
    cases key <;> obtain ⟨x, found, rfl⟩ := Option.map_eq_some_iff.mp read
    case pingTimeout => exact .pingTimeout (Number.readSeconds?_eq_some_iff.mp found)
    case pingAttempts =>
      exact .pingAttempts (Number.readUInt32?_eq_some_iff.mp found) x.toNat_lt (toNat_max_one x)
    case terminateSignal => exact .terminateSignal (Signal.parse?_eq_some_iff.mp found)
    case roundRobinPriority => exact .roundRobinPriority (Number.readInt32?_eq_some_iff.mp found)
    case defaultPolicy => exact .defaultPolicy (Policy.parse?_eq_some_iff.mp found)
    case defaultPriority => exact .defaultPriority (Number.readInt32?_eq_some_iff.mp found)
    case maxSessions =>
      obtain ⟨number, fits⟩ := Number.readCount?_eq_some_iff.mp found
      exact .maxSessions number fits
  · intro worth
    cases worth with
    | pingTimeout seconds =>
      rw [assign?, Number.readSeconds?_eq_some_iff.mpr seconds]
      rfl
    | @pingAttempts v n attempts number fits some =>
      have same : (UInt32.ofNat n).toNat = n := UInt32.toNat_ofNat_of_lt' fits
      rw [← same] at number some
      rw [← toNat_max_one, UInt32.toNat_inj] at some
      rw [assign?, Number.readUInt32?_eq_some_iff.mpr number, some]
      rfl
    | terminateSignal named =>
      rw [assign?, Signal.parse?_eq_some_iff.mpr named]
      rfl
    | roundRobinPriority number | defaultPriority number =>
      rw [assign?, Number.readInt32?_eq_some_iff.mpr number]
      rfl
    | defaultPolicy named =>
      rw [assign?, Policy.parse?_eq_some_iff.mpr named]
      rfl
    | maxSessions number fits =>
      rw [assign?, Number.readCount?_eq_some_iff.mpr ⟨number, fits⟩]
      rfl

end SettingKey

end Supervisor
