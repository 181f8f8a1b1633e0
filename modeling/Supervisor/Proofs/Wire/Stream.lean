import Supervisor.Wire.Frame

/-!
# Frames on one stream

Frames that were encoded one after the other are read back one after the other, wherever the reads
of the stream cut them (`Frame.readMany_frames`), and a stream that ends inside a frame yields the
frames before it and then `endOfStream` (`Frame.readAll_cut`). Both come from what reading does to a
single frame, whole (`Frame.read_frame`) or cut short (`Frame.read_cut`).

What the reads of a stream hand out is known only as a string of bytes: `Source.Gives` is all that
the statements ask of a source.
-/

set_option autoImplicit false
set_option relaxedAutoImplicit false

namespace Supervisor.Wire

/-! ### What a source gives -/

/-- The source gives these bytes and then ends, in reads of any size except zero. -/
structure Source.Gives (s : Source) (bs : Bytes) : Prop where
  steady : s.Steady
  bytes : s.bytes = bs

namespace Source.Gives

variable {s : Source} {bs head tail : Bytes}

theorem size (gives : s.Gives bs) : s.size = bs.length :=
  congrArg List.length gives.bytes

theorem take? (gives : s.Gives (head ++ tail)) :
    ∃ rest : Source, rest.Gives tail ∧ s.take? head.length = (some head, rest) := by
  have enough : head.length ≤ s.size := by
    rw [gives.size, List.length_append]
    exact Nat.le_add_right _ _
  obtain ⟨rest, steady, taken, bytes⟩ := Source.take?_of_le gives.steady enough
  rw [gives.bytes, List.take_left] at taken
  rw [gives.bytes, List.drop_left] at bytes
  exact ⟨rest, ⟨steady, bytes⟩, taken⟩

theorem take?_of_lt (gives : s.Gives bs) {count : Nat} (short : bs.length < count) :
    s.take? count = (none, ⟨[]⟩) :=
  Source.take?_of_lt gives.steady (gives.size ▸ short)

end Source.Gives

namespace Frame

/-! ### One frame -/

/-- What `encode` writes before the payload. -/
def header (m : Message) (stream : StreamId) : Bytes :=
  leBytes 4 (m.toBytes.length + 4) ++ leBytes 4 stream.toNat

theorem encode_eq_ok {m : Message} {stream : StreamId} {frame : Bytes} :
    encode m stream = .ok frame ↔
      m.toBytes.length ≤ payloadLimit ∧ frame = header m stream ++ m.toBytes := by
  unfold encode
  by_cases fits : m.toBytes.length ≤ payloadLimit
  · rw [if_pos fits]
    exact ⟨fun h ↦ ⟨fits, (Except.ok.inj h).symm⟩, fun h ↦ congrArg Except.ok h.2.symm⟩
  · rw [if_neg fits]
    exact ⟨fun h ↦ by simp at h, fun h ↦ absurd h.1 fits⟩

theorem exists_encode_iff (m : Message) (stream : StreamId) :
    (∃ frame, encode m stream = .ok frame) ↔ m.toBytes.length ≤ payloadLimit :=
  ⟨fun ⟨_, h⟩ ↦ (encode_eq_ok.mp h).1, fun fits ↦ ⟨_, encode_eq_ok.mpr ⟨fits, rfl⟩⟩⟩

theorem fits_of_length_le {m : Message} (fits : m.toBytes.length ≤ payloadLimit) : m.Fits := by
  cases m with
  | staged kind content =>
    have bound : content.length ≤ payloadLimit := by
      simp only [Message.toBytes, List.length_append] at fits
      omega
    exact Nat.lt_of_le_of_lt bound (by decide)
  | _ => trivial

section

variable {m : Message} {stream : StreamId} {frame : Bytes} {s : Source}

theorem length_of_encode (encoded : encode m stream = .ok frame) :
    frame.length = m.toBytes.length + 8 := by
  obtain ⟨-, rfl⟩ := encode_eq_ok.mp encoded
  simp only [header, List.length_append, length_leBytes]
  omega

/-- The length field of a frame is read back, and it is one that `read` accepts. -/
theorem leValue_length (fits : m.toBytes.length ≤ payloadLimit) :
    leValue (leBytes 4 (m.toBytes.length + 4)) = m.toBytes.length + 4 := by
  apply leValue_leBytes_of_lt
  exact Nat.lt_of_le_of_lt (Nat.add_le_add_right fits 4) (by decide)

theorem read_frame {rest : Bytes} (encoded : encode m stream = .ok frame)
    (gives : s.Gives (frame ++ rest)) :
    ∃ s' : Source, s'.Gives rest ∧ read s = (.ok (m, stream), s') := by
  obtain ⟨fits, rfl⟩ := encode_eq_ok.mp encoded
  rw [header, List.append_assoc, List.append_assoc] at gives
  obtain ⟨s₁, gives₁, length⟩ := gives.take?
  obtain ⟨s₂, gives₂, address⟩ := gives₁.take?
  obtain ⟨s₃, gives₃, payload⟩ := gives₂.take?
  rw [length_leBytes] at length address
  have whole : Message.ofBytes m.toBytes = .ok (m, []) := by
    simpa using Message.ofBytes_append (fits_of_length_le fits) []
  have named : UInt32.ofNat (leValue (leBytes 4 stream.toNat)) = stream := by
    rw [leValue_leBytes_of_lt (show stream.toNat < 256 ^ 4 from stream.toNat_lt)]
    exact UInt32.ofNat_toNat
  refine ⟨s₃, gives₃, ?_⟩
  unfold read
  simp only [length, leValue_length fits, address, Nat.add_sub_cancel, payload, whole, named]
  rw [if_neg (by omega), if_neg (by omega)]

theorem read_cut {cut : Nat} (encoded : encode m stream = .ok frame) (short : cut < frame.length)
    (gives : s.Gives (frame.take cut)) : read s = (.error .endOfStream, ⟨[]⟩) := by
  have size := length_of_encode encoded
  obtain ⟨fits, rfl⟩ := encode_eq_ok.mp encoded
  unfold read
  by_cases noLength : cut < 4
  · rw [gives.take?_of_lt (by rw [List.length_take]; omega)]
  rw [header, List.append_assoc, List.take_append, length_leBytes,
    List.take_of_length_le (by rw [length_leBytes]; omega)] at gives
  obtain ⟨s₁, gives₁, length⟩ := gives.take?
  rw [length_leBytes] at length
  simp only [length, leValue_length fits, Nat.add_sub_cancel]
  rw [if_neg (by omega), if_neg (by omega)]
  by_cases noAddress : cut < 8
  · rw [gives₁.take?_of_lt (by simp; omega)]
  rw [List.take_append, length_leBytes,
    List.take_of_length_le (by rw [length_leBytes]; omega)] at gives₁
  obtain ⟨s₂, gives₂, address⟩ := gives₁.take?
  rw [length_leBytes] at address
  simp only [address]
  rw [gives₂.take?_of_lt (by simp; omega)]

/-- Nothing is read at the end of a stream. -/
theorem read_end (gives : s.Gives []) : read s = (.error .endOfStream, ⟨[]⟩) := by
  unfold read
  rw [gives.take?_of_lt (by decide)]

end

/-! ### One frame after the other -/

section

variable {m : Message} {stream : StreamId} {s rest : Source} {fault : Fault}

theorem fold_of_error {α : Type} (step : α → Message → StreamId → α) (gathered : α)
    (found : read s = (.error fault, rest)) : fold step gathered s = (gathered, fault, rest) := by
  rw [fold]
  split
  next other left h =>
    rw [found] at h
    cases h
    rfl
  next h =>
    rw [found] at h
    cases h

theorem fold_of_ok {α : Type} (step : α → Message → StreamId → α) (gathered : α)
    (found : read s = (.ok (m, stream), rest)) :
    fold step gathered s = fold step (step gathered m stream) rest := by
  rw [fold]
  split
  next h =>
    rw [found] at h
    cases h
  next h =>
    rw [found] at h
    cases h
    rfl

/-- Folding over a source is folding over a list of frames, whatever is gathered. -/
theorem exists_fold (s : Source) :
    ∃ (frames : List (Message × StreamId)) (fault : Fault) (rest : Source),
      ∀ (α : Type) (step : α → Message → StreamId → α) (gathered : α), fold step gathered s =
        (frames.foldl (fun a frame ↦ step a frame.1 frame.2) gathered, fault, rest) := by
  generalize size : s.size = n
  induction n using Nat.strongRecOn generalizing s with
  | ind n ih =>
    rcases found : read s with ⟨outcome, left⟩
    cases outcome with
    | error fault => exact ⟨[], fault, left, fun α step gathered ↦ fold_of_error step gathered found⟩
    | ok frame =>
      obtain ⟨frames, fault, rest, folded⟩ := ih left.size (size ▸ size_lt_of_read found) left rfl
      refine ⟨frame :: frames, fault, rest, fun α step gathered ↦ ?_⟩
      rw [fold_of_ok step gathered found, folded, List.foldl_cons]

theorem fold_eq {α : Type} (step : α → Message → StreamId → α) (gathered : α) (s : Source) :
    fold step gathered s =
      ((readAll s).1.foldl (fun a frame ↦ step a frame.1 frame.2) gathered, (readAll s).2) := by
  obtain ⟨frames, fault, rest, folded⟩ := exists_fold s
  have all : readAll s = (frames, fault, rest) := by
    rw [readAll, folded]
    simp
  rw [all, folded]

theorem readAll_of_error (found : read s = (.error fault, rest)) :
    readAll s = ([], fault, rest) := by
  rw [readAll, fold_of_error _ _ found]
  rfl

theorem readAll_of_ok (found : read s = (.ok (m, stream), rest)) :
    readAll s = ((m, stream) :: (readAll rest).1, (readAll rest).2) := by
  rw [readAll, fold_of_ok _ _ found, fold_eq]
  simp

end

/-- Takes a given number of frames. -/
def readMany : Nat → Source → Except Fault (List (Message × StreamId)) × Source
  | 0, s => (.ok [], s)
  | count + 1, s =>
    match read s with
    | (.error fault, s) => (.error fault, s)
    | (.ok frame, s) =>
      match readMany count s with
      | (.error fault, s) => (.error fault, s)
      | (.ok frames, s) => (.ok (frame :: frames), s)

/-- The frames are those that `encode` makes of the messages, in the same order. -/
inductive Encodes : List (Message × StreamId) → List Bytes → Prop
  | nil : Encodes [] []
  | cons {m : Message} {stream : StreamId} {frame : Bytes} {sent : List (Message × StreamId)}
      {frames : List Bytes} (encoded : encode m stream = .ok frame)
      (encodes : Encodes sent frames) : Encodes ((m, stream) :: sent) (frame :: frames)

section

variable {sent : List (Message × StreamId)} {frames : List Bytes} {s : Source}

theorem readMany_frames {rest : Bytes} (encodes : Encodes sent frames)
    (gives : s.Gives (frames.flatten ++ rest)) :
    ∃ s' : Source, s'.Gives rest ∧ readMany sent.length s = (.ok sent, s') := by
  induction encodes generalizing s with
  | nil => exact ⟨s, gives, rfl⟩
  | cons encoded _ ih =>
    rw [List.flatten_cons, List.append_assoc] at gives
    obtain ⟨s₁, gives₁, first⟩ := read_frame encoded gives
    obtain ⟨s₂, gives₂, others⟩ := ih gives₁
    refine ⟨s₂, gives₂, ?_⟩
    simp only [List.length_cons, readMany, first, others]

/-- A stream that ends after `cut` bytes of the frames yields as many frames as end by then. -/
theorem readAll_cut {cut : Nat} (encodes : Encodes sent frames)
    (gives : s.Gives (frames.flatten.take cut)) :
    ∃ n ≤ sent.length, (∀ i ≤ sent.length, i ≤ n ↔ (frames.take i).flatten.length ≤ cut) ∧
      readAll s = (sent.take n, .endOfStream, ⟨[]⟩) := by
  induction encodes generalizing s cut with
  | nil =>
    rw [List.flatten_nil, List.take_nil] at gives
    refine ⟨0, Nat.le_refl 0, ?_, readAll_of_error (read_end gives)⟩
    intro i hi
    simp [Nat.le_zero.mp hi]
  | @cons m stream frame sent frames encoded _ ih =>
    rw [List.flatten_cons, List.take_append] at gives
    by_cases whole : frame.length ≤ cut
    · rw [List.take_of_length_le whole] at gives
      obtain ⟨s₁, gives₁, first⟩ := read_frame encoded gives
      obtain ⟨n, bound, complete, others⟩ := ih gives₁
      refine ⟨n + 1, Nat.succ_le_succ bound, ?_, ?_⟩
      · intro i hi
        cases i with
        | zero => simp
        | succ i =>
          have here := complete i (Nat.le_of_succ_le_succ hi)
          rw [List.take_succ_cons, List.flatten_cons, List.length_append]
          omega
      · rw [readAll_of_ok first, others]
        rfl
    · have short : cut < frame.length := Nat.lt_of_not_le whole
      rw [Nat.sub_eq_zero_of_le (Nat.le_of_lt short), List.take_zero, List.append_nil] at gives
      refine ⟨0, Nat.zero_le _, ?_, readAll_of_error (read_cut encoded short gives)⟩
      intro i _
      cases i with
      | zero => simp
      | succ i =>
        rw [List.take_succ_cons, List.flatten_cons, List.length_append]
        omega

end

/-- Frames on a stream are read back in order, up to the last one that is complete, and a message
has a frame if and only if its payload keeps the limit. -/
theorem stream_roundTrip :
    (∀ (sent : List (Message × StreamId)) (frames : List Bytes) (rest : Bytes) (s : Source),
      Encodes sent frames → s.Gives (frames.flatten ++ rest) →
        ∃ s' : Source, s'.Gives rest ∧ readMany sent.length s = (.ok sent, s')) ∧
    (∀ (sent : List (Message × StreamId)) (frames : List Bytes) (cut : Nat) (s : Source),
      Encodes sent frames → s.Gives (frames.flatten.take cut) →
        ∃ n ≤ sent.length, (∀ i ≤ sent.length, i ≤ n ↔ (frames.take i).flatten.length ≤ cut) ∧
          readAll s = (sent.take n, .endOfStream, ⟨[]⟩)) ∧
    ∀ (m : Message) (stream : StreamId),
      (∃ frame, encode m stream = .ok frame) ↔ m.toBytes.length ≤ 1048576 :=
  ⟨fun _ _ _ _ encodes gives ↦ readMany_frames encodes gives,
    fun _ _ _ _ encodes gives ↦ readAll_cut encodes gives, exists_encode_iff⟩

/-- Two frames and a byte more in reads of three bytes, and the same frames cut four bytes short. -/
theorem stream_roundTrip_two :
    let sent : List (Message × StreamId) := [(.status 2, 0), (.staged .startMsg [8, 9], 7)]
    let frames := sent.map fun packet ↦ header packet.1 packet.2 ++ packet.1.toBytes
    let whole := Source.ofBytesInReads 3 (frames.flatten ++ [5])
    let short := Source.ofBytesInReads 3 (frames.flatten.take 38)
    Encodes sent frames ∧ whole.Gives (frames.flatten ++ [5]) ∧
      short.Gives (frames.flatten.take 38) ∧
      (∃ s' : Source, s'.Gives [5] ∧ readMany 2 whole = (.ok sent, s')) ∧
      ∃ n ≤ 2, (∀ i ≤ 2, i ≤ n ↔ (frames.take i).flatten.length ≤ 38) ∧
        readAll short = (sent.take n, .endOfStream, ⟨[]⟩) := by
  intro sent frames whole short
  have encodes : Encodes sent frames := .cons rfl (.cons rfl .nil)
  have gives : whole.Gives (frames.flatten ++ [5]) := ⟨by unfold Source.Steady; decide, rfl⟩
  have cut : short.Gives (frames.flatten.take 38) := ⟨by unfold Source.Steady; decide, rfl⟩
  exact ⟨encodes, gives, cut, stream_roundTrip.1 sent frames [5] whole encodes gives,
    stream_roundTrip.2.1 sent frames 38 short encodes cut⟩

end Frame

end Supervisor.Wire
