import Supervisor.Wire.Bytes

/-!
# Control messages and their payload form

A payload is the number of the message's variant as a four-byte word, followed by its fields in
order: fixed-width little-endian words, one byte for a flag, and an eight-byte length in front of a
run of bytes. `Message.ofBytes` reads one message from the front of a payload and hands back the
bytes that are left. `Message.ofBytes_append` says that a written message is read back whatever
follows it.
-/

set_option autoImplicit false
set_option relaxedAutoImplicit false

namespace Supervisor

/-- Correlates a liveness ping with its reply. -/
abbrev PingId := UInt64

/-- The stream that a frame is addressed to; zero is the supervisor itself. -/
abbrev StreamId := UInt32

inductive PayloadKind
  | queryNum
  | startMsg
  | requirements
deriving DecidableEq

inductive Message
  | ping (id : PingId)
  | pingReply (id : PingId)
  | shutdownTimer (delaySeconds : UInt64) (enable : Bool)
  | inflate (factor : Int32)
  | status (code : Int32)
  | staged (kind : PayloadKind) (content : Bytes)
deriving DecidableEq

namespace Wire

inductive PayloadFault
  | ended
  | unknownVariant (index bound : Nat)
  | badFlag (byte : UInt8)
deriving DecidableEq

def PayloadFault.message : PayloadFault → String
  | .ended => "io error: unexpected end of file"
  | .unknownVariant index bound =>
    "invalid value: integer `" ++ toString index ++ "`, expected variant index 0 <= i < "
      ++ toString bound
  | .badFlag byte =>
    "invalid u8 while decoding bool, expected 0 or 1, found " ++ toString byte.toNat

/-- The first `count` bytes and the rest. -/
def takeBytes (count : Nat) (bs : Bytes) : Except PayloadFault (Bytes × Bytes) :=
  if bs.length < count then .error .ended else .ok (bs.take count, bs.drop count)

def takeWord (width : Nat) (bs : Bytes) : Except PayloadFault (Nat × Bytes) :=
  (takeBytes width bs).map fun (word, rest) ↦ (leValue word, rest)

def takeFlag (bs : Bytes) : Except PayloadFault (Bool × Bytes) :=
  match bs with
  | [] => .error .ended
  | 0 :: rest => .ok (false, rest)
  | 1 :: rest => .ok (true, rest)
  | byte :: _ => .error (.badFlag byte)

theorem takeBytes_append (bs rest : Bytes) : takeBytes bs.length (bs ++ rest) = .ok (bs, rest) := by
  simp [takeBytes]

theorem takeWord_append {width n : Nat} (h : n < 256 ^ width) (rest : Bytes) :
    takeWord width (leBytes width n ++ rest) = .ok (n, rest) := by
  have := takeBytes_append (leBytes width n) rest
  rw [length_leBytes] at this
  simp [takeWord, this, Except.map, leValue_leBytes_of_lt h]

end Wire

namespace PayloadKind

def index : PayloadKind → Nat
  | .queryNum => 0
  | .startMsg => 1
  | .requirements => 2

def ofIndex? : Nat → Option PayloadKind
  | 0 => some .queryNum
  | 1 => some .startMsg
  | 2 => some .requirements
  | _ => none

theorem ofIndex?_index (kind : PayloadKind) : ofIndex? kind.index = some kind := by
  cases kind <;> rfl

end PayloadKind

namespace Message

open Wire

def toBytes : Message → Bytes
  | .ping id => leBytes 4 0 ++ leBytes 8 id.toNat
  | .pingReply id => leBytes 4 1 ++ leBytes 8 id.toNat
  | .shutdownTimer delay enable =>
    leBytes 4 2 ++ leBytes 8 delay.toNat ++ [if enable then 1 else 0]
  | .inflate factor => leBytes 4 3 ++ leBytes 4 factor.toUInt32.toNat
  | .status code => leBytes 4 4 ++ leBytes 4 code.toUInt32.toNat
  | .staged kind content =>
    leBytes 4 5 ++ leBytes 4 kind.index ++ leBytes 8 content.length ++ content

/-- Fields of the message with the given variant number. -/
def fieldsOfBytes (variant : Nat) (bs : Bytes) : Except PayloadFault (Message × Bytes) := do
  match variant with
  | 0 =>
    let (id, bs) ← takeWord 8 bs
    return (.ping (.ofNat id), bs)
  | 1 =>
    let (id, bs) ← takeWord 8 bs
    return (.pingReply (.ofNat id), bs)
  | 2 =>
    let (delay, bs) ← takeWord 8 bs
    let (enable, bs) ← takeFlag bs
    return (.shutdownTimer (.ofNat delay) enable, bs)
  | 3 =>
    let (factor, bs) ← takeWord 4 bs
    return (.inflate (UInt32.ofNat factor).toInt32, bs)
  | 4 =>
    let (code, bs) ← takeWord 4 bs
    return (.status (UInt32.ofNat code).toInt32, bs)
  | 5 =>
    let (index, bs) ← takeWord 4 bs
    match PayloadKind.ofIndex? index with
    | none => throw (.unknownVariant index 3)
    | some kind =>
      let (length, bs) ← takeWord 8 bs
      let (content, bs) ← takeBytes length bs
      return (.staged kind content, bs)
  | index => throw (.unknownVariant index 6)

def ofBytes (bs : Bytes) : Except PayloadFault (Message × Bytes) := do
  let (variant, bs) ← takeWord 4 bs
  fieldsOfBytes variant bs

/-- Only the content of a staged payload can be too long for the form, at 2^64 bytes. -/
def Fits : Message → Prop
  | .staged _ content => content.length < 2 ^ 64
  | _ => True

theorem ofBytes_append {m : Message} (h : m.Fits) (rest : Bytes) :
    ofBytes (m.toBytes ++ rest) = .ok (m, rest) := by
  have word (width n : Nat) (hn : n < 256 ^ width) (rest : Bytes) := takeWord_append hn rest
  cases m with
  | ping id =>
    simp [ofBytes, toBytes, fieldsOfBytes, List.append_assoc, word 4 0 (by decide),
      word 8 id.toNat id.toNat_lt, bind, Except.bind, pure, Except.pure]
  | pingReply id =>
    simp [ofBytes, toBytes, fieldsOfBytes, List.append_assoc, word 4 1 (by decide),
      word 8 id.toNat id.toNat_lt, bind, Except.bind, pure, Except.pure]
  | shutdownTimer delay enable =>
    cases enable <;>
    simp [ofBytes, toBytes, fieldsOfBytes, List.append_assoc, word 4 2 (by decide),
      word 8 delay.toNat delay.toNat_lt, takeFlag, bind, Except.bind, pure, Except.pure]
  | inflate factor =>
    simp [ofBytes, toBytes, fieldsOfBytes, List.append_assoc, word 4 3 (by decide),
      word 4 factor.toUInt32.toNat factor.toUInt32.toNat_lt, bind, Except.bind, pure, Except.pure]
  | status code =>
    simp [ofBytes, toBytes, fieldsOfBytes, List.append_assoc, word 4 4 (by decide),
      word 4 code.toUInt32.toNat code.toUInt32.toNat_lt, bind, Except.bind, pure, Except.pure]
  | staged kind content =>
    have hindex : kind.index < 256 ^ 4 := by cases kind <;> decide
    simp [ofBytes, toBytes, fieldsOfBytes, List.append_assoc, word 4 5 (by decide),
      word 4 kind.index hindex, PayloadKind.ofIndex?_index, word 8 content.length h,
      takeBytes_append, bind, Except.bind, pure, Except.pure]

end Message

end Supervisor
