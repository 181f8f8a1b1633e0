import Supervisor.Number.Integer
import Supervisor.Text.Blank
import Supervisor.Text.Casing

/-!
# Signals

The thirty-one standard signals by number and name. `Signal.parse?` reads a number, or a name in any
case with or without its first three letters.
-/

set_option autoImplicit false
set_option relaxedAutoImplicit false

namespace Supervisor

/-- A signal by its number less one. -/
structure Signal where
  index : Fin 31
deriving DecidableEq

namespace Signal

/-- Names in the order of the numbers, from 1. -/
def names : List String := [
  "SIGHUP", "SIGINT", "SIGQUIT", "SIGILL", "SIGTRAP", "SIGABRT", "SIGBUS", "SIGFPE", "SIGKILL",
  "SIGUSR1", "SIGSEGV", "SIGUSR2", "SIGPIPE", "SIGALRM", "SIGTERM", "SIGSTKFLT", "SIGCHLD",
  "SIGCONT", "SIGSTOP", "SIGTSTP", "SIGTTIN", "SIGTTOU", "SIGURG", "SIGXCPU", "SIGXFSZ",
  "SIGVTALRM", "SIGPROF", "SIGWINCH", "SIGIO", "SIGPWR", "SIGSYS"]

theorem length_names : names.length = 31 := rfl

def name (s : Signal) : String :=
  names.get (s.index.cast length_names.symm)

def number (s : Signal) : Nat :=
  s.index.val + 1

def terminate : Signal := ⟨14⟩

def ofNumber? (n : Int) : Option Signal :=
  if h : 1 ≤ n ∧ n ≤ 31 then some ⟨⟨n.toNat - 1, by omega⟩⟩ else none

def ofName? (cs : List Char) : Option Signal :=
  (names.findFinIdx? (·.toList = cs)).map fun i ↦ ⟨Fin.cast length_names i⟩

def parse? (cs : List Char) : Option Signal :=
  let cs := Text.trim cs
  match Number.readInt32? cs with
  | some n => ofNumber? n.toInt
  | none =>
    let name := Text.capitals cs
    let sig := ['S', 'I', 'G']
    ofName? (if sig.isPrefixOf name then name else sig ++ name)

theorem ofNumber?_number (s : Signal) : ofNumber? s.number = some s := by
  have h : 1 ≤ (s.number : Int) ∧ (s.number : Int) ≤ 31 := by
    have := s.index.isLt
    simp only [number]
    omega
  rw [ofNumber?, dif_pos h]
  rfl

end Signal

end Supervisor
