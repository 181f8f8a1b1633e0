import Supervisor.Fault
import Supervisor.Settings.Text

/-!
# Settings in files

A `FileNode` is an entry of a file system. A path is walked name by name from the root, or from an
empty working directory, and reading fails as the operating system says: there has to be a directory
before every further name, the name has to exist in it, and what is found has to be a file. A name
has at most 255 bytes, a path at most 4095, and links are followed forty times. What is read has to
be UTF-8.
-/

set_option autoImplicit false
set_option relaxedAutoImplicit false

namespace Supervisor

inductive FileNode
  | file (content : Bytes)
  | directory (entries : List (String × FileNode))
  /-- Stands for what the names lead to from the root. -/
  | link (names : List String)
  /-- A file that cannot be read. -/
  | unreadable (errno : Errno)

inductive FileFault
  | system (errno : Errno)
  | notText
  /-- The path has a NUL, which ends every path of the operating system. -/
  | strayNul
deriving DecidableEq

def FileFault.message : FileFault → String
  | .system errno => errno.streamText
  | .notText => "stream did not contain valid UTF-8"
  | .strayNul => "file name contained an unexpected NUL byte"

namespace FileNode

def mostNameBytes : Nat := 255
def mostPathBytes : Nat := 4095
def mostLinks : Nat := 40

/-- Follows the names of a path from `node`; `above` are the directories on the way to it, innermost
first, and `links` is how many links may still be followed. -/
def walk (root : FileNode) (links : Nat) (above : List FileNode) (node : FileNode)
    (names : List String) : Except Errno FileNode :=
  match names, node with
  | [], _ => .ok node
  | name :: names, .directory entries =>
    if name = "" ∨ name = "." then walk root links above node names
    else if name = ".." then
      match above with
      | [] => walk root links [] node names
      | outer :: rest => walk root links rest outer names
    else if mostNameBytes < name.utf8ByteSize then .error .nameTooLong
    else
      match entries.find? (·.1 = name), links with
      | none, _ => .error .noEntry
      | some (_, .link _), 0 => .error .linkLoop
      | some (_, .link target), links + 1 => walk root links [] root (target ++ names)
      | some (_, found), links => walk root links (node :: above) found names
  | _ :: _, _ => .error .notDirectory
termination_by (links, names.length)

/-- The names of a path between its strokes. -/
def pathNames (path : String) : List String :=
  let step (c : Char) (names : List (List Char)) : List (List Char) :=
    if c = '/' then [] :: names
    else
      match names with
      | [] => [[c]]
      | name :: rest => (c :: name) :: rest
  (path.toList.foldr step [[]]).map String.ofList

def read (root : FileNode) (path : String) : Except Errno Bytes :=
  if path = "" then .error .noEntry
  else if mostPathBytes < path.utf8ByteSize then .error .nameTooLong
  else
    let names := pathNames path
    let found :=
      if names.head? = some "" then walk root mostLinks [] root names
      else walk root mostLinks [root] (.directory []) names
    match found with
    | .error errno => .error errno
    | .ok (.file content) => .ok content
    | .ok (.unreadable errno) => .error errno
    | .ok _ => .error .isDirectory

end FileNode

namespace Settings

/-- Settings from the bytes of a file. -/
def ofContent (content : Bytes) : Except FileFault Settings :=
  match String.fromUTF8? ⟨content.toArray⟩ with
  | none => .error .notText
  | some text => .ok (parse text)

def load (root : FileNode) (path : String) : Except FileFault Settings :=
  if path.toList.any (·.toNat = 0) then .error .strayNul
  else
    match root.read path with
    | .error errno => .error (.system errno)
    | .ok content => ofContent content

/-- What a failure to load is reported as, before its cause. -/
def loadContext (path : String) : String :=
  "reading proxy config " ++ path

/-- Where settings are kept in a home directory. -/
def defaultPath (home : String) : String :=
  (if home.endsWith "/" then home else home ++ "/") ++ ".xpd/proxy.conf"

end Settings

end Supervisor
