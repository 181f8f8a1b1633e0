import Supervisor.Number.Seconds
import Supervisor.Settings.Basic

/-!
# Settings in text

A text of settings has one assignment `KEY=value` to a line, perhaps after the word `export`, with
blanks around key, sign and value, and the value perhaps in a pair of quotes. Lines that start with
a hash mark, lines that assign to no known key and lines whose value is not well formed are passed
over.

A text is first read into its list of assignments, and these are then made in order, so that the
last one to a setting stands.
-/

set_option autoImplicit false
set_option relaxedAutoImplicit false

namespace Supervisor

inductive Assignment
  | pingTimeout (span : Duration)
  | pingAttempts (n : UInt32)
  | terminateSignal (sig : Signal)
  | roundRobinPriority (priority : Int32)
  | defaultPolicy (policy : Policy)
  | defaultPriority (priority : Int32)
  | maxSessions (n : Nat)
deriving DecidableEq

/-- What can be assigned to, without the value. -/
inductive SettingKey
  | pingTimeout
  | pingAttempts
  | terminateSignal
  | roundRobinPriority
  | defaultPolicy
  | defaultPriority
  | maxSessions
deriving DecidableEq

namespace SettingKey

def all : List SettingKey := [
  .pingTimeout, .pingAttempts, .terminateSignal, .roundRobinPriority, .defaultPolicy,
  .defaultPriority, .maxSessions]

def name : SettingKey → String
  | .pingTimeout => "XPD_PING_TIMEOUT"
  | .pingAttempts => "XPD_PING_ATTEMPTS"
  | .terminateSignal => "XPD_TERMINATE_SIGNAL"
  | .roundRobinPriority => "XPD_RR_PRIORITY"
  | .defaultPolicy => "XPD_DEFAULT_POLICY"
  | .defaultPriority => "XPD_DEFAULT_PRIORITY"
  | .maxSessions => "XPD_MAX_SESSIONS"

def ofName? (cs : List Char) : Option SettingKey :=
  all.find? fun key ↦ key.name.toList = cs

theorem ofName?_name (key : SettingKey) : ofName? key.name.toList = some key := by
  cases key <;> decide

/-- Reads a value for a key. -/
def assign? (key : SettingKey) (value : List Char) : Option Assignment :=
  match key with
  | .pingTimeout => (Number.readSeconds? value).map .pingTimeout
  | .pingAttempts => (Number.readUInt32? value).map fun n ↦ .pingAttempts (max n 1)
  | .terminateSignal => (Signal.parse? value).map .terminateSignal
  | .roundRobinPriority => (Number.readInt32? value).map .roundRobinPriority
  | .defaultPolicy => (Policy.parse? value).map .defaultPolicy
  | .defaultPriority => (Number.readInt32? value).map .defaultPriority
  | .maxSessions => (Number.readCount? value).map .maxSessions

end SettingKey

namespace Assignment

def key : Assignment → SettingKey
  | .pingTimeout _ => .pingTimeout
  | .pingAttempts _ => .pingAttempts
  | .terminateSignal _ => .terminateSignal
  | .roundRobinPriority _ => .roundRobinPriority
  | .defaultPolicy _ => .defaultPolicy
  | .defaultPriority _ => .defaultPriority
  | .maxSessions _ => .maxSessions

def apply (s : Settings) : Assignment → Settings
  | .pingTimeout span => { s with pingTimeout := span }
  | .pingAttempts n => { s with pingAttempts := n }
  | .terminateSignal sig => { s with terminateSignal := sig }
  | .roundRobinPriority priority => { s with roundRobinPriority := priority }
  | .defaultPolicy policy => { s with schedule := { s.schedule with policy := policy } }
  | .defaultPriority priority => { s with schedule := { s.schedule with priority := priority } }
  | .maxSessions n => { s with maxSessions := n }

end Assignment

/-- Removes one pair of equal quotes around a value. -/
def unquote (cs : List Char) : List Char :=
  match cs with
  | q :: rest =>
    if (q = '"' ∨ q = '\'') ∧ rest.getLast? = some q then rest.dropLast else cs
  | [] => []

def stripExport (cs : List Char) : List Char :=
  if "export ".toList.isPrefixOf cs then cs.drop 7 else cs

/-- The parts of a line before and after its first equality sign. -/
def splitAtSign? (cs : List Char) : Option (List Char × List Char) :=
  match cs.dropWhile (· != '=') with
  | [] => none
  | _ :: rest => some (cs.takeWhile (· != '='), rest)

/-- The assignment that a line makes. -/
def Assignment.ofLine? (line : List Char) : Option Assignment := do
  let line := Text.trim line
  if line.head? = some '#' then none
  else
    let (key, value) ← splitAtSign? (stripExport line)
    let key ← SettingKey.ofName? (Text.trim key)
    key.assign? (unquote (Text.trim value))

/-- The lines of a text; the line feeds between them belong to none. -/
def linesOf (cs : List Char) : List (List Char) :=
  cs.foldr
    (fun c lines ↦
      if c = '\n' then [] :: lines
      else
        match lines with
        | [] => [[c]]
        | line :: rest => (c :: line) :: rest)
    [[]]

namespace Settings

def assignments (cs : List Char) : List Assignment :=
  (linesOf cs).filterMap Assignment.ofLine?

def parse (text : String) : Settings :=
  (assignments text.toList).foldl Assignment.apply Settings.standard

end Settings

end Supervisor
