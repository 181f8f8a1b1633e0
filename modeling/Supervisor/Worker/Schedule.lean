import Supervisor.Number.Integer
import Supervisor.Text.Casing

/-!
# Scheduling of a worker process

A scheduling policy is one of the three that have names or a bare number of the operating system. A
`Schedule` is a policy with its static priority.
-/

set_option autoImplicit false
set_option relaxedAutoImplicit false

namespace Supervisor

inductive Policy
  | other
  | fifo
  | roundRobin
  | raw (number : Int32)
deriving DecidableEq

namespace Policy

def ofNumber (n : Int32) : Policy :=
  if n = 0 then .other else if n = 1 then .fifo else if n = 2 then .roundRobin else .raw n

def number : Policy → Int32
  | .other => 0
  | .fifo => 1
  | .roundRobin => 2
  | .raw n => n

def name : Policy → String
  | .other => "other"
  | .fifo => "fifo"
  | .roundRobin => "rr"
  | .raw _ => "raw"

/-- Reads a name in any case, or the number of a policy. -/
def parse? (cs : List Char) : Option Policy :=
  let spelt (names : List String) : Bool := names.any (·.toList = Text.smalls cs)
  if spelt ["other", "normal"] then some .other
  else if spelt ["fifo"] then some .fifo
  else if spelt ["rr", "roundrobin", "round-robin"] then some .roundRobin
  else (Number.readInt32? cs).map ofNumber

theorem number_ofNumber (n : Int32) : (ofNumber n).number = n := by
  unfold ofNumber
  split
  · simp_all [number]
  · split
    · simp_all [number]
    · split <;> simp_all [number]

end Policy

structure Schedule where
  policy : Policy
  priority : Int32
deriving DecidableEq

def Schedule.standard : Schedule := ⟨.other, 0⟩

end Supervisor
