import Supervisor.Wire.Message
import Supervisor.Wire.Source

/-!
# Frames

A frame is a four-byte length, a four-byte stream id and the payload of one message; the length
counts the id and the payload. A payload has at most `payloadLimit` bytes. `Frame.read` takes one
frame from a source and `Frame.fold` takes frames until the first fault, which is `endOfStream` when
the source runs dry.
-/

set_option autoImplicit false
set_option relaxedAutoImplicit false

namespace Supervisor.Wire

def payloadLimit : Nat := 1048576

inductive Fault
  | endOfStream
  | tooShort
  | tooLong (bytes : Nat)
  | payload (fault : PayloadFault)
deriving DecidableEq

def Fault.message : Fault → String
  | .endOfStream => "failed to fill whole buffer"
  | .tooShort => "Message length too small"
  | .tooLong bytes => "Message too large: " ++ toString bytes ++ " bytes"
  | .payload fault => fault.message

namespace Frame

def encode (m : Message) (stream : StreamId) : Except Fault Bytes :=
  let payload := m.toBytes
  if payload.length ≤ payloadLimit then
    .ok (leBytes 4 (payload.length + 4) ++ leBytes 4 stream.toNat ++ payload)
  else .error (.tooLong payload.length)

/-- One frame from the front of a source. Payload bytes that its message does not need are
ignored. -/
def read (s : Source) : Except Fault (Message × StreamId) × Source :=
  match s.take? 4 with
  | (none, s) => (.error .endOfStream, s)
  | (some head, s) =>
    let length := leValue head
    if length < 4 then (.error .tooShort, s)
    else if payloadLimit < length - 4 then (.error (.tooLong length), s)
    else
      match s.take? 4 with
      | (none, s) => (.error .endOfStream, s)
      | (some stream, s) =>
        match s.take? (length - 4) with
        | (none, s) => (.error .endOfStream, s)
        | (some payload, s) =>
          match Message.ofBytes payload with
          | .error fault => (.error (.payload fault), s)
          | .ok (m, _) => (.ok (m, .ofNat (leValue stream)), s)

/-- A frame uses up at least its length field. -/
theorem size_lt_of_read {s rest : Source} {frame : Message × StreamId}
    (h : read s = (.ok frame, rest)) : rest.size < s.size := by
  rw [read] at h
  split at h
  case h_1 => simp at h
  case h_2 head afterHead htake =>
    have hhead := Source.size_of_take? htake
    simp only at h
    repeat' split at h
    all_goals simp only [Prod.mk.injEq, reduceCtorEq, false_and] at h
    case h_2 hstream _ _ _ hpayload _ _ _ _ =>
      have hid := Source.size_of_take? hstream
      have hrest := Source.size_of_take? hpayload
      obtain ⟨-, rfl⟩ := h
      omega

/-- Takes frames until the first fault, and gives what was gathered, the fault and the rest of the
source. -/
def fold {α : Type} (step : α → Message → StreamId → α) (gathered : α) (s : Source) :
    α × Fault × Source :=
  match h : read s with
  | (.error fault, rest) => (gathered, fault, rest)
  | (.ok (m, stream), rest) =>
    have := size_lt_of_read h
    fold step (step gathered m stream) rest
termination_by s.size

/-- The frames of a source in order, the fault that ended them and the rest. -/
def readAll (s : Source) : List (Message × StreamId) × Fault × Source :=
  let (frames, fault, rest) := fold (fun frames m stream ↦ (m, stream) :: frames) [] s
  (frames.reverse, fault, rest)

end Frame

/-- Why a frame could not be written. -/
inductive WriteFault
  | unfit (fault : Fault)
  | full
deriving DecidableEq

def WriteFault.message : WriteFault → String
  | .unfit fault => fault.message
  | .full => "failed to write whole buffer"

/-- Writes a frame where there is room for `room` bytes in all, and gives the bytes written: the
whole frame, or as much of it as fits. -/
def Frame.writeWithin (room : Nat) (m : Message) (stream : StreamId) :
    Except WriteFault Unit × Bytes :=
  match encode m stream with
  | .error fault => (.error (.unfit fault), [])
  | .ok frame => (if frame.length ≤ room then .ok () else .error .full, frame.take room)

end Supervisor.Wire
