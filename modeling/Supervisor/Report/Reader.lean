import Supervisor.Json.Reader
import Supervisor.Report.Writer

/-!
# Reading reports

A report is read from an object, whose unknown members are ignored and whose known members must not
be repeated, or from an array of all fields in their order. A field that may be without a value may
also be null, and in an object left out. Words of a fixed vocabulary may be written as a string or
as an object with the word as its only key and null for its value.
-/

set_option autoImplicit false
set_option relaxedAutoImplicit false

namespace Supervisor

namespace Json

def int? : Json → Option Int
  | .number n => n.toInt?
  | _ => none

def int32? (v : Json) : Option Int32 :=
  v.int?.bind Number.int32?

def int16? (v : Json) : Option Int16 :=
  v.int?.bind Number.int16?

/-- A natural below `bound`. -/
def natBelow? (bound : Nat) (v : Json) : Option Nat :=
  v.int?.bind fun n ↦ if 0 ≤ n ∧ n < bound then some n.toNat else none

def single? : Json → Option Number.Single
  | .number n => n.toSingle?
  | _ => none

def bool? : Json → Option Bool
  | .bool value => some value
  | _ => none

def string? : Json → Option String
  | .string text => text
  | _ => none

def isNull : Json → Bool
  | .null => true
  | _ => false

/-- A word of a vocabulary, on its own or as the key of null. -/
def word? : Json → Option String
  | .string text => text
  | .object [(key, .null)] => key
  | _ => none

/-- Members whose keys all have a text. -/
def namedMembers? (members : List (Option String × Json)) : Option (List (String × Json)) :=
  members.mapM fun (key, v) ↦ key.map fun key ↦ (key, v)

/-- The members of a record with the given fields, from an object or from an array of all fields. -/
def record? (names : List String) : Json → Option (List (String × Json))
  | .object members => namedMembers? members
  | .array elements =>
    if elements.length = names.length then some (names.zip elements) else none
  | _ => none

/-- The value of a field that may be missing; a field that is there twice is refused. -/
def member? (name : String) (members : List (String × Json)) : Option (Option Json) :=
  match members.filter (·.1 = name) with
  | [] => some none
  | [(_, v)] => some (some v)
  | _ => none

def required? {α : Type} (members : List (String × Json)) (name : String) (read : Json → Option α) :
    Option α := do
  let v ← (← member? name members)
  read v

/-- A field that may be missing or null. -/
def optional? {α : Type} (members : List (String × Json)) (name : String) (read : Json → Option α) :
    Option (Option α) := do
  match ← member? name members with
  | none => return none
  | some v => if v.isNull then return none else return some (← read v)

end Json

def Role.ofJson? (v : Json) : Option Role :=
  v.word?.bind fun word ↦ [Role.topMaster, .master, .worker].find? fun role ↦ role.name = word

def Lifecycle.ofJson? (v : Json) : Option Lifecycle :=
  v.word?.bind fun word ↦ Lifecycle.all.find? fun life ↦ life.formalName = word

def Policy.ofJson? (v : Json) : Option Policy :=
  match v with
  | .object [(some "Raw", n)] => n.int32?.map .raw
  | _ =>
    v.word?.bind fun word ↦
      if word = "Other" then some .other
      else if word = "Fifo" then some .fifo
      else if word = "RoundRobin" then some .roundRobin
      else none

def Schedule.ofJson? (v : Json) : Option Schedule := do
  let members ← v.record? ["policy", "priority"]
  return ⟨← Json.required? members "policy" Policy.ofJson?,
    ← Json.required? members "priority" Json.int32?⟩

def WorkerId.ofJson? (v : Json) : Option WorkerId :=
  (v.natBelow? (2 ^ 32)).map fun n ↦ ⟨UInt32.ofNat n⟩

def WorkerId.listOfJson? : Json → Option (List WorkerId)
  | .array elements => elements.mapM WorkerId.ofJson?
  | _ => none

namespace Report

def fieldNames : List String := [
  "id", "srv_pid", "srv_type", "protocol_version", "ordinal", "tag", "alias", "client", "status",
  "status_name", "lifecycle", "valid", "shutdown", "attached_clients", "workers", "inflate",
  "sched", "frac_eff", "group", "runtime", "created_at"]

theorem map_fst_fields (r : Report) : r.fields.map Prod.fst = fieldNames := rfl

def ofJson? (v : Json) : Option Report := do
  let members ← v.record? fieldNames
  let required {α : Type} := @Json.required? α members
  let optional {α : Type} := @Json.optional? α members
  return {
    id := ← required "id" Json.int16?
    pid := ← optional "srv_pid" Json.int32?
    role := ← optional "srv_type" Role.ofJson?
    protocolVersion := ← required "protocol_version" Json.int32?
    ordinal := ← optional "ordinal" Json.string?
    tag := ← optional "tag" Json.string?
    nickname := ← optional "alias" Json.string?
    client := ← optional "client" Json.string?
    status := ← required "status" Json.int32?
    statusName := ← required "status_name" Json.string?
    lifecycle := ← required "lifecycle" Lifecycle.ofJson?
    valid := ← required "valid" Json.bool?
    shutdown := ← required "shutdown" Json.bool?
    attachedClients := UInt64.ofNat (← required "attached_clients" (Json.natBelow? (2 ^ 64)))
    workers := ← required "workers" WorkerId.listOfJson?
    inflate := ← required "inflate" Json.int32?
    schedule := ← required "sched" Schedule.ofJson?
    effectiveFraction := ← required "frac_eff" Json.single?
    group := ← optional "group" Json.string?
    installation := ← optional "runtime" Json.string?
    createdAt :=
      ← required "created_at" fun v ↦ v.string?.bind fun s ↦ Calendar.Timestamp.read? s.toList }

def read? (text : String) : Option Report :=
  (Json.read? text.toList).bind ofJson?

end Report

end Supervisor
