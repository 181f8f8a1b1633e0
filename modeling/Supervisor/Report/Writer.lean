import Supervisor.Calendar.Text
import Supervisor.Json.Numeric
import Supervisor.Report.Basic

/-!
# Writing reports

A report is an object with its fields in a fixed order; fields without a value are left out.
-/

set_option autoImplicit false
set_option relaxedAutoImplicit false

namespace Supervisor

def Policy.toJson : Policy → Json
  | .other => .ofText "Other"
  | .fifo => .ofText "Fifo"
  | .roundRobin => .ofText "RoundRobin"
  | .raw n => .object [(some "Raw", .ofInt n.toInt)]

def ClientSlot.toJson (slot : ClientSlot) : Json :=
  let connection :=
    match slot.connection? with
    | none => .null
    | some connection => .ofInt connection.number.toNat
  .object [(some "connection", connection), (some "sid", .ofInt slot.stream.toNat)]

def Schedule.toJson (s : Schedule) : Json :=
  .object [(some "policy", s.policy.toJson), (some "priority", .ofInt s.priority.toInt)]

namespace Report

/-- The fields of a report in order; one without a value is `none`. -/
def fields (r : Report) : List (String × Option Json) := [
  ("id", some (.ofInt r.id.toInt)),
  ("srv_pid", r.pid.map fun pid ↦ .ofInt pid.toInt),
  ("srv_type", r.role.map fun role ↦ .ofText role.name),
  ("protocol_version", some (.ofInt r.protocolVersion.toInt)),
  ("ordinal", r.ordinal.map .ofText),
  ("tag", r.tag.map .ofText),
  ("alias", r.nickname.map .ofText),
  ("client", r.client.map .ofText),
  ("status", some (.ofInt r.status.toInt)),
  ("status_name", some (.ofText r.statusName)),
  ("lifecycle", some (.ofText r.lifecycle.formalName)),
  ("valid", some (.bool r.valid)),
  ("shutdown", some (.bool r.shutdown)),
  ("attached_clients", some (.ofInt r.attachedClients.toNat)),
  ("workers", some (.array (r.workers.map fun worker ↦ .ofInt worker.number.toNat))),
  ("inflate", some (.ofInt r.inflate.toInt)),
  ("sched", some r.schedule.toJson),
  ("frac_eff", some (.ofSingle r.effectiveFraction)),
  ("group", r.group.map .ofText),
  ("runtime", r.installation.map .ofText),
  ("created_at", some (.ofText (String.ofList r.createdAt.text)))]

def toJson (r : Report) : Json :=
  .object (r.fields.filterMap fun (name, value) ↦ value.map fun v ↦ (some name, v))

def text (r : Report) : String :=
  String.ofList r.toJson.text

end Report

end Supervisor
