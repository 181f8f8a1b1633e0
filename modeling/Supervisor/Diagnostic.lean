import Supervisor.Session.Proxy
import Supervisor.Text.Quoted

/-!
# Diagnostic texts

One line about a thing for a log: the name of its kind and its telling fields between braces.
-/

set_option autoImplicit false
set_option relaxedAutoImplicit false

namespace Supervisor.Diagnostic

/-- A kind with at least one field. -/
def record (kind : String) (fields : List (String × String)) : String :=
  kind ++ " \x7b " ++ ", ".intercalate (fields.map fun (name, value) ↦ name ++ ": " ++ value)
    ++ " \x7d"

/-- A value that may be missing. -/
def optional (value : Option String) : String :=
  match value with
  | none => "None"
  | some text => "Some(" ++ text ++ ")"

def bool (value : Bool) : String :=
  if value then "true" else "false"

def session (s : Session) : String :=
  record "ServerProxy" [
    ("id", toString s.id.toInt),
    ("srv_pid", optional (s.pid.map fun pid ↦ "Pid(" ++ toString pid.toInt ++ ")")),
    ("valid", bool s.valid),
    ("shutdown", bool s.shutdown)]

def link (l : Link) : String :=
  record "UnixLink" [("peer", Text.quoted l.peer)]

def channel (c : Channel) : String :=
  record "WorkerResponse" [
    ("link", optional (c.link.map fun l ↦ Text.quoted l.peer)),
    ("stream_id", toString c.stream.toNat)]

def ping (ping : Ping) : String :=
  record "PingWait" [("id", toString ping.id.toNat)]

def payload (content : Bytes) : String :=
  record "SrvBuffer" [("len", toString content.length)]

end Supervisor.Diagnostic
