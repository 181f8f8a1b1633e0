import Supervisor.Proofs.Wire.Stream

/-!
# What is read as a frame

`Message.ofBytes_eq_ok` says that a payload is read as a message if and only if it begins with the
payload form of that message, whatever its length fields and flags claim. `Frame.Begins` says the
same of a string of bytes and a frame, and `Frame.read_exact` that `Frame.read` accepts a stream
exactly where its bytes begin with a frame, which of its faults it reports otherwise, and how the
frame read differs from the one that would be written.
-/

set_option autoImplicit false
set_option relaxedAutoImplicit false

namespace Supervisor

namespace Wire

/-! ### Parts of a payload -/

/-- Reading in two steps succeeds if both do. -/
theorem bind_eq_ok {α β : Type} {first : Except PayloadFault α}
    {second : α → Except PayloadFault β} {result : β} :
    first >>= second = .ok result ↔ ∃ found, first = .ok found ∧ second found = .ok result := by
  cases first with
  | error fault =>
    constructor
    · intro h
      cases h
    · rintro ⟨_, h, -⟩
      cases h
  | ok found =>
    constructor
    · exact fun h ↦ ⟨found, rfl, h⟩
    · rintro ⟨_, same, h⟩
      cases same
      exact h

theorem takeBytes_eq_ok {count : Nat} {bs found rest : Bytes} :
    takeBytes count bs = .ok (found, rest) ↔ found.length = count ∧ bs = found ++ rest := by
  constructor
  · intro h
    unfold takeBytes at h
    split at h
    · cases h
    next enough =>
      cases h
      exact ⟨List.length_take_of_le (Nat.le_of_not_lt enough), (List.take_append_drop _ _).symm⟩
  · rintro ⟨rfl, rfl⟩
    exact takeBytes_append found rest

theorem takeWord_eq_ok {width n : Nat} {bs rest : Bytes} :
    takeWord width bs = .ok (n, rest) ↔ n < 256 ^ width ∧ bs = leBytes width n ++ rest := by
  constructor
  · intro h
    cases taken : takeBytes width bs with
    | error fault =>
      rw [takeWord, taken] at h
      cases h
    | ok parts =>
      obtain ⟨word, left⟩ := parts
      obtain ⟨rfl, rfl⟩ := takeBytes_eq_ok.mp taken
      rw [takeWord, taken] at h
      cases h
      exact ⟨leValue_lt word, by rw [leBytes_leValue]⟩
  · rintro ⟨small, rfl⟩
    exact takeWord_append small rest

theorem takeFlag_eq_ok {flag : Bool} {bs rest : Bytes} :
    takeFlag bs = .ok (flag, rest) ↔ bs = (if flag then 1 else 0) :: rest := by
  constructor
  · intro h
    unfold takeFlag at h
    split at h
    · cases h
    · cases h
      rfl
    · cases h
      rfl
    · cases h
  · rintro rfl
    cases flag with
    | false => rfl
    | true => rfl

end Wire

theorem PayloadKind.eq_index_of_ofIndex? {n : Nat} {kind : PayloadKind}
    (found : ofIndex? n = some kind) : n = kind.index := by
  unfold ofIndex? at found
  split at found
  · cases found
    rfl
  · cases found
    rfl
  · cases found
    rfl
  · cases found

namespace Message

open Wire

/-- The fields that are read are the ones that would be written. -/
theorem eq_of_fieldsOfBytes {variant : Nat} {bs rest : Bytes} {m : Message}
    (read : fieldsOfBytes variant bs = .ok (m, rest)) :
    m.Fits ∧ leBytes 4 variant ++ bs = m.toBytes ++ rest := by
  have word64 {n : Nat} (small : n < 256 ^ 8) : (UInt64.ofNat n).toNat = n :=
    UInt64.toNat_ofNat_of_lt' small
  have word32 {n : Nat} (small : n < 256 ^ 4) : (UInt32.ofNat n).toInt32.toUInt32.toNat = n := by
    rw [UInt32.toUInt32_toInt32]
    exact UInt32.toNat_ofNat_of_lt' small
  unfold fieldsOfBytes at read
  split at read
  · obtain ⟨⟨id, left⟩, first, made⟩ := bind_eq_ok.mp read
    cases made
    obtain ⟨small, rfl⟩ := takeWord_eq_ok.mp first
    exact ⟨trivial, by rw [toBytes, word64 small, List.append_assoc]⟩
  · obtain ⟨⟨id, left⟩, first, made⟩ := bind_eq_ok.mp read
    cases made
    obtain ⟨small, rfl⟩ := takeWord_eq_ok.mp first
    exact ⟨trivial, by rw [toBytes, word64 small, List.append_assoc]⟩
  · obtain ⟨⟨delay, left⟩, first, next⟩ := bind_eq_ok.mp read
    obtain ⟨⟨enable, left⟩, second, made⟩ := bind_eq_ok.mp next
    cases made
    obtain ⟨small, rfl⟩ := takeWord_eq_ok.mp first
    obtain rfl := takeFlag_eq_ok.mp second
    refine ⟨trivial, ?_⟩
    rw [toBytes, word64 small, List.append_assoc, List.append_assoc]
    rfl
  · obtain ⟨⟨factor, left⟩, first, made⟩ := bind_eq_ok.mp read
    cases made
    obtain ⟨small, rfl⟩ := takeWord_eq_ok.mp first
    exact ⟨trivial, by rw [toBytes, word32 small, List.append_assoc]⟩
  · obtain ⟨⟨code, left⟩, first, made⟩ := bind_eq_ok.mp read
    cases made
    obtain ⟨small, rfl⟩ := takeWord_eq_ok.mp first
    exact ⟨trivial, by rw [toBytes, word32 small, List.append_assoc]⟩
  · obtain ⟨⟨index, left⟩, first, next⟩ := bind_eq_ok.mp read
    dsimp only at next
    split at next
    · cases next
    next kind known =>
      obtain ⟨⟨length, left⟩, second, next⟩ := bind_eq_ok.mp next
      obtain ⟨⟨content, left⟩, third, made⟩ := bind_eq_ok.mp next
      cases made
      obtain ⟨-, rfl⟩ := takeWord_eq_ok.mp first
      obtain ⟨small, rfl⟩ := takeWord_eq_ok.mp second
      obtain ⟨rfl, rfl⟩ := takeBytes_eq_ok.mp third
      refine ⟨small, ?_⟩
      rw [PayloadKind.eq_index_of_ofIndex? known, toBytes]
      simp only [List.append_assoc]
  · cases read

/-- A payload is read as a message exactly if it begins with the message's own form. -/
theorem ofBytes_eq_ok {bs rest : Bytes} {m : Message} :
    ofBytes bs = .ok (m, rest) ↔ m.Fits ∧ bs = m.toBytes ++ rest := by
  constructor
  · intro read
    obtain ⟨⟨variant, left⟩, taken, fields⟩ := bind_eq_ok.mp read
    obtain ⟨-, rfl⟩ := takeWord_eq_ok.mp taken
    exact eq_of_fieldsOfBytes fields
  · rintro ⟨fits, rfl⟩
    exact ofBytes_append fits rest

end Message

namespace Wire

/-- The bytes themselves are at fault, and not that they end too early. -/
def Fault.Malformed : Fault → Prop
  | .endOfStream => False
  | .tooShort | .tooLong _ | .payload _ => True

theorem Source.gives_ofBytes (w : Bytes) : (Source.ofBytes w).Gives w := by
  unfold Source.ofBytes
  cases w with
  | nil => exact ⟨fun _ h ↦ absurd h List.not_mem_nil, rfl⟩
  | cons b bs =>
    refine ⟨fun read h ↦ ?_, by simp [Source.bytes]⟩
    cases List.mem_singleton.mp h
    exact List.cons_ne_nil b bs

theorem Source.Gives.take?_of_le {s : Source} {w : Bytes} {n : Nat} (gives : s.Gives w)
    (enough : n ≤ w.length) :
    ∃ rest : Source, rest.Gives (w.drop n) ∧ s.take? n = (some (w.take n), rest) := by
  have known := gives.bytes
  obtain ⟨rest, steady, taken, left⟩ := Source.take?_of_le gives.steady (gives.size ▸ enough)
  rw [known] at taken left
  exact ⟨rest, ⟨steady, left⟩, taken⟩

namespace Frame

/-! ### What a string of bytes begins with -/

/-- The bytes begin with a frame that carries the message to the stream in a payload of `n` bytes;
the payload may go on after the message. -/
structure Begins (w : Bytes) (m : Message) (stream : StreamId) (n : Nat) : Prop where
  limit : n ≤ 1048576
  whole : 8 + n ≤ w.length
  length : w.take 4 = leBytes 4 (n + 4)
  address : (w.drop 4).take 4 = leBytes 4 stream.toNat
  message : m.toBytes <+: (w.drop 8).take n

/-- The number in the length field. -/
def lengthField (w : Bytes) : Nat :=
  leValue (w.take 4)

/-- The length field, if there is one, announces a frame that goes on after the bytes. -/
def EndsInside (w : Bytes) : Prop :=
  w.length < 4 ∨ 4 ≤ lengthField w ∧ lengthField w ≤ 1048580 ∧ w.length < 4 + lengthField w

namespace Begins

variable {w : Bytes} {m m' : Message} {stream stream' : StreamId} {n n' : Nat}

theorem lengthField_eq (begins : Begins w m stream n) : lengthField w = n + 4 := by
  have small : n + 4 < 256 ^ 4 := Nat.lt_of_le_of_lt (Nat.add_le_add_right begins.limit 4) (by decide)
  rw [lengthField, begins.length, leValue_leBytes_of_lt small]

/-- The message is short enough to be written. -/
theorem length_le (begins : Begins w m stream n) : m.toBytes.length ≤ n :=
  Nat.le_trans begins.message.length_le (List.length_take_le _ _)

theorem fits (begins : Begins w m stream n) : m.Fits :=
  fits_of_length_le (Nat.le_trans begins.length_le begins.limit)

theorem ofBytes (begins : Begins w m stream n) :
    ∃ trailing, Message.ofBytes ((w.drop 8).take n) = .ok (m, trailing) := by
  obtain ⟨trailing, same⟩ := begins.message
  exact ⟨trailing, Message.ofBytes_eq_ok.mpr ⟨begins.fits, same.symm⟩⟩

/-- Bytes begin with one frame at most. -/
theorem unique (begins : Begins w m stream n) (begins' : Begins w m' stream' n') :
    m = m' ∧ stream = stream' ∧ n = n' := by
  have size : n = n' := Nat.add_right_cancel (begins.lengthField_eq.symm.trans begins'.lengthField_eq)
  subst size
  obtain ⟨_, read⟩ := begins.ofBytes
  obtain ⟨_, read'⟩ := begins'.ofBytes
  have address := congrArg leValue (begins.address.symm.trans begins'.address)
  rw [leValue_leBytes_of_lt (show stream.toNat < 256 ^ 4 from stream.toNat_lt),
    leValue_leBytes_of_lt (show stream'.toNat < 256 ^ 4 from stream'.toNat_lt)] at address
  exact ⟨(Prod.mk.inj (Except.ok.inj (read.symm.trans read'))).1, UInt32.toNat_inj.mp address, rfl⟩

/-- The frame of the message would be the bytes read, except for what follows it in the payload. -/
theorem encode (begins : Begins w m stream n) :
    ∃ frame, Frame.encode m stream = .ok frame ∧ frame.length ≤ 8 + n ∧
      (frame = w.take (8 + n) ↔ m.toBytes = (w.drop 8).take n) := by
  have fits : m.toBytes.length ≤ payloadLimit := Nat.le_trans begins.length_le begins.limit
  refine ⟨header m stream ++ m.toBytes, encode_eq_ok.mpr ⟨fits, rfl⟩, ?_, ?_⟩
  · rw [length_of_encode (encode_eq_ok.mpr ⟨fits, rfl⟩), Nat.add_comm]
    exact Nat.add_le_add_left begins.length_le 8
  · have front : w.take (8 + n) =
        (leBytes 4 (n + 4) ++ leBytes 4 stream.toNat) ++ (w.drop 8).take n := by
      rw [List.take_add, show (8 : Nat) = 4 + 4 from rfl, List.take_add, begins.length,
        begins.address]
    rw [front, header]
    constructor
    · intro same
      exact (List.append_inj same (by simp)).2
    · intro same
      have size : m.toBytes.length = n := by
        rw [same, List.length_take, List.length_drop]
        have whole := begins.whole
        omega
      rw [size, same]

end Begins

/-! ### Reading, case by case -/

section

variable {w : Bytes} {s : Source}

theorem begins_iff {m : Message} {stream : StreamId} {n : Nat} :
    Begins w m stream n ↔
      (4 ≤ lengthField w ∧ lengthField w ≤ 1048580 ∧ 4 + lengthField w ≤ w.length) ∧
        lengthField w = n + 4 ∧ leValue ((w.drop 4).take 4) = stream.toNat ∧
        ∃ trailing, Message.ofBytes ((w.drop 8).take n) = .ok (m, trailing) := by
  have stream_lt : stream.toNat < 256 ^ 4 := stream.toNat_lt
  constructor
  · intro begins
    have field := begins.lengthField_eq
    have limit := begins.limit
    have whole := begins.whole
    refine ⟨by omega, field, ?_, begins.ofBytes⟩
    rw [begins.address, leValue_leBytes_of_lt stream_lt]
  · rintro ⟨⟨least, most, whole⟩, field, address, trailing, read⟩
    obtain ⟨-, payload⟩ := Message.ofBytes_eq_ok.mp read
    have head : (w.take 4).length = 4 := by
      rw [List.length_take]
      omega
    have next : ((w.drop 4).take 4).length = 4 := by
      rw [List.length_take, List.length_drop]
      omega
    refine ⟨by omega, by omega, ?_, ?_, ?_⟩
    · have written := leBytes_leValue (w.take 4)
      rw [head] at written
      rw [← field]
      exact written.symm
    · have written := leBytes_leValue ((w.drop 4).take 4)
      rw [next, address] at written
      exact written.symm
    · rw [payload]
      exact List.prefix_append _ _

theorem read_of_noLength (gives : s.Gives w) (short : w.length < 4) :
    (read s).1 = .error .endOfStream := by
  unfold read
  rw [gives.take?_of_lt short]

theorem read_of_tooShort (gives : s.Gives w) (there : 4 ≤ w.length) (small : lengthField w < 4) :
    (read s).1 = .error .tooShort := by
  obtain ⟨rest, -, head⟩ := gives.take?_of_le there
  unfold lengthField at small
  unfold read
  simp only [head]
  rw [if_pos small]

theorem read_of_tooLong (gives : s.Gives w) (there : 4 ≤ w.length)
    (large : 1048580 < lengthField w) : (read s).1 = .error (.tooLong (lengthField w)) := by
  obtain ⟨rest, -, head⟩ := gives.take?_of_le there
  unfold read
  simp only [head]
  unfold lengthField at large
  rw [if_neg (by omega), if_pos (by unfold payloadLimit; omega)]
  rfl

theorem read_of_cut (gives : s.Gives w) (there : 4 ≤ w.length) (least : 4 ≤ lengthField w)
    (most : lengthField w ≤ 1048580) (cut : w.length < 4 + lengthField w) :
    (read s).1 = .error .endOfStream := by
  obtain ⟨rest, gives₁, head⟩ := gives.take?_of_le there
  unfold read
  simp only [head]
  unfold lengthField at least most cut
  rw [if_neg (by omega), if_neg (by unfold payloadLimit; omega)]
  by_cases noAddress : w.length < 8
  · rw [gives₁.take?_of_lt (by rw [List.length_drop]; omega)]
  obtain ⟨rest', gives₂, address⟩ := gives₁.take?_of_le (n := 4) (by rw [List.length_drop]; omega)
  simp only [address]
  rw [gives₂.take?_of_lt (by rw [List.length_drop, List.length_drop]; omega)]

theorem read_of_whole (gives : s.Gives w) (least : 4 ≤ lengthField w)
    (most : lengthField w ≤ 1048580) (whole : 4 + lengthField w ≤ w.length) :
    ∃ rest : Source, rest.Gives (w.drop (4 + lengthField w)) ∧
      read s = (match Message.ofBytes ((w.drop 8).take (lengthField w - 4)) with
        | .error fault => .error (.payload fault)
        | .ok (m, _) => .ok (m, .ofNat (leValue ((w.drop 4).take 4))), rest) := by
  obtain ⟨s₁, gives₁, head⟩ := gives.take?_of_le (n := 4) (by omega)
  obtain ⟨s₂, gives₂, address⟩ := gives₁.take?_of_le (n := 4) (by rw [List.length_drop]; omega)
  rw [List.drop_drop] at gives₂
  obtain ⟨s₃, gives₃, payload⟩ := gives₂.take?_of_le (n := lengthField w - 4)
    (by rw [List.length_drop]; omega)
  rw [List.drop_drop, show 4 + 4 + (lengthField w - 4) = 4 + lengthField w by omega] at gives₃
  refine ⟨s₃, gives₃, ?_⟩
  unfold read
  simp only [head]
  unfold lengthField at least most payload ⊢
  rw [if_neg (by omega), if_neg (by unfold payloadLimit; omega)]
  simp only [address, payload]
  cases Message.ofBytes ((w.drop 8).take (leValue (w.take 4) - 4)) with
  | error fault => rfl
  | ok found => rfl

theorem read_of_begins {m : Message} {stream : StreamId} {n : Nat} (gives : s.Gives w)
    (begins : Begins w m stream n) :
    ∃ rest : Source, rest.Gives (w.drop (8 + n)) ∧ read s = (.ok (m, stream), rest) := by
  obtain ⟨⟨least, most, whole⟩, field, address, trailing, payload⟩ := begins_iff.mp begins
  obtain ⟨rest, left, found⟩ := read_of_whole gives least most whole
  rw [field, Nat.add_sub_cancel, payload, address, UInt32.ofNat_toNat] at found
  rw [field, show 4 + (n + 4) = 8 + n by omega] at left
  exact ⟨rest, left, found⟩

/-- No frame can be read from the front of the bytes, for that reason. A payload that is too short
for its message is a fault of a frame that is complete, and not the end of the stream. -/
inductive Stops (w : Bytes) : Fault → Prop
  | inside (ends : EndsInside w) : Stops w .endOfStream
  | tooShort (there : 4 ≤ w.length) (small : lengthField w < 4) : Stops w .tooShort
  | tooLong (there : 4 ≤ w.length) (large : 1048580 < lengthField w) :
      Stops w (.tooLong (lengthField w))
  | payload (least : 4 ≤ lengthField w) (most : lengthField w ≤ 1048580)
      (whole : 4 + lengthField w ≤ w.length) {fault : PayloadFault}
      (unread : Message.ofBytes ((w.drop 8).take (lengthField w - 4)) = .error fault) :
      Stops w (.payload fault)

theorem Stops.read {fault : Fault} (stops : Stops w fault) (gives : s.Gives w) :
    (read s).1 = .error fault := by
  cases stops with
  | inside ends =>
    by_cases noLength : w.length < 4
    · exact read_of_noLength gives noLength
    obtain ⟨least, most, cut⟩ := ends.resolve_left noLength
    exact read_of_cut gives (Nat.le_of_not_lt noLength) least most cut
  | tooShort there small => exact read_of_tooShort gives there small
  | tooLong there large => exact read_of_tooLong gives there large
  | payload least most whole unread =>
    obtain ⟨rest, -, found⟩ := read_of_whole gives least most whole
    rw [unread] at found
    exact congrArg Prod.fst found

/-- Where no frame begins, there is a reason. -/
theorem begins_or_stops (w : Bytes) :
    (∃ m stream n, Begins w m stream n) ∨ ∃ fault, Stops w fault := by
  by_cases inside : EndsInside w
  · exact .inr ⟨_, .inside inside⟩
  have there : 4 ≤ w.length := Nat.le_of_not_lt fun noLength ↦ inside (.inl noLength)
  by_cases small : lengthField w < 4
  · exact .inr ⟨_, .tooShort there small⟩
  by_cases large : 1048580 < lengthField w
  · exact .inr ⟨_, .tooLong there large⟩
  have least : 4 ≤ lengthField w := Nat.le_of_not_lt small
  have most : lengthField w ≤ 1048580 := Nat.le_of_not_lt large
  have whole : 4 + lengthField w ≤ w.length :=
    Nat.le_of_not_lt fun cut ↦ inside (.inr ⟨least, most, cut⟩)
  cases payload : Message.ofBytes ((w.drop 8).take (lengthField w - 4)) with
  | error fault => exact .inr ⟨_, .payload least most whole payload⟩
  | ok found =>
    obtain ⟨m, trailing⟩ := found
    have address : leValue ((w.drop 4).take 4) < UInt32.size := by
      have small := leValue_lt ((w.drop 4).take 4)
      rw [List.length_take, List.length_drop, show min 4 (w.length - 4) = 4 by omega] at small
      exact small
    refine .inl ⟨m, .ofNat (leValue ((w.drop 4).take 4)), lengthField w - 4, begins_iff.mpr ?_⟩
    exact ⟨⟨least, most, whole⟩, (Nat.sub_add_cancel least).symm,
      (UInt32.toNat_ofNat_of_lt' address).symm, trailing, payload⟩

/-- Bytes begin with a frame, or reading them fails for one of two reasons. -/
theorem begins_or_fault (gives : s.Gives w) :
    (∃ m stream n, Begins w m stream n) ∨
      EndsInside w ∧ (read s).1 = .error .endOfStream ∨
      ¬ EndsInside w ∧ ∃ fault : Fault, fault.Malformed ∧ (read s).1 = .error fault := by
  rcases begins_or_stops w with begins | ⟨fault, stops⟩
  · exact .inl begins
  have failed := stops.read gives
  cases stops with
  | inside ends => exact .inr (.inl ⟨ends, failed⟩)
  | tooShort | tooLong | payload =>
    refine .inr (.inr ⟨?_, _, by trivial, failed⟩)
    unfold EndsInside
    omega

theorem read_ok_iff (gives : s.Gives w) (m : Message) (stream : StreamId) (k : Nat) :
    (∃ rest : Source, k ≤ w.length ∧ rest.Gives (w.drop k) ∧ read s = (.ok (m, stream), rest)) ↔
      ∃ n, k = 8 + n ∧ Begins w m stream n := by
  constructor
  · rintro ⟨rest, used, left, found⟩
    have outcome := congrArg Prod.fst found
    rcases begins_or_fault gives with ⟨m', stream', n, begins⟩ | ⟨-, failed⟩ | ⟨-, fault, -, failed⟩
    · obtain ⟨rest', left', found'⟩ := read_of_begins gives begins
      obtain ⟨same, rfl⟩ := Prod.mk.inj (found'.symm.trans found)
      cases same
      refine ⟨n, ?_, begins⟩
      have sizes := congrArg List.length (left'.bytes.symm.trans left.bytes)
      rw [List.length_drop, List.length_drop] at sizes
      have whole := begins.whole
      omega
    · cases failed.symm.trans outcome
    · cases failed.symm.trans outcome
  · rintro ⟨n, rfl, begins⟩
    obtain ⟨rest, left, found⟩ := read_of_begins gives begins
    exact ⟨rest, begins.whole, left, found⟩

theorem read_of_not_begins (gives : s.Gives w) (none : ∀ m stream n, ¬ Begins w m stream n) :
    ∃ fault, (read s).1 = .error fault ∧ (fault = .endOfStream ↔ EndsInside w) ∧
      (fault.Malformed ↔ ¬ EndsInside w) := by
  rcases begins_or_fault gives with ⟨m, stream, n, begins⟩ | ⟨ends, failed⟩ |
    ⟨whole, fault, malformed, failed⟩
  · exact absurd begins (none m stream n)
  · exact ⟨.endOfStream, failed, iff_of_true rfl ends, iff_of_false id (not_not_intro ends)⟩
  · refine ⟨fault, failed, iff_of_false ?_ whole, iff_of_true malformed whole⟩
    rintro rfl
    exact malformed

end

/-! ### Every stream -/

/-- A frame is read exactly where the bytes begin with one, and it is the one that they begin with;
no more of them is used up. Otherwise the fault is the end of the stream exactly if the bytes end
inside what their length field announces. To write what was read again gives the same bytes, except
for what followed the message in its payload. -/
theorem read_exact {w : Bytes} {s : Source} (gives : s.Gives w) :
    (∀ m stream k, (∃ rest : Source, k ≤ w.length ∧ rest.Gives (w.drop k) ∧
        read s = (.ok (m, stream), rest)) ↔ ∃ n, k = 8 + n ∧ Begins w m stream n) ∧
    (∀ m m' stream stream' n n', Begins w m stream n → Begins w m' stream' n' →
      m = m' ∧ stream = stream' ∧ n = n') ∧
    ((∀ m stream n, ¬ Begins w m stream n) → ∃ fault, (read s).1 = .error fault ∧
      (fault = .endOfStream ↔ EndsInside w) ∧ (fault.Malformed ↔ ¬ EndsInside w)) ∧
    ∀ m stream n, Begins w m stream n → ∃ frame, encode m stream = .ok frame ∧
      frame.length ≤ 8 + n ∧ (frame = w.take (8 + n) ↔ m.toBytes = (w.drop 8).take n) := by
  exact ⟨read_ok_iff gives, fun _ _ _ _ _ _ begins begins' ↦ begins.unique begins',
    read_of_not_begins gives, fun _ _ _ begins ↦ begins.encode⟩

/-- A ping whose payload goes on for a byte, with two bytes behind the frame. -/
theorem read_exact_trailing :
    let w : Bytes := leBytes 4 17 ++ leBytes 4 3 ++ (Message.ping 5).toBytes ++ [9] ++ [1, 2]
    let s := Source.ofBytes w
    s.Gives w ∧ Begins w (.ping 5) 3 13 ∧
      (∃ rest : Source, rest.Gives [1, 2] ∧ read s = (.ok (.ping 5, 3), rest)) ∧
      ∃ frame, encode (.ping 5) 3 = .ok frame ∧ frame.length ≤ 21 ∧ frame ≠ w.take 21 := by
  intro w s
  have gives : s.Gives w := Source.gives_ofBytes w
  have begins : Begins w (.ping 5) 3 13 :=
    ⟨by decide, by decide, by decide, by decide, [9], by decide⟩
  obtain ⟨accepted, -, -, written⟩ := read_exact gives
  obtain ⟨rest, -, left, found⟩ := (accepted (.ping 5) 3 21).mpr ⟨13, rfl, begins⟩
  obtain ⟨frame, encoded, short, same⟩ := written (.ping 5) 3 13 begins
  exact ⟨gives, begins, ⟨rest, left, found⟩, frame, encoded, short,
    fun all ↦ absurd (same.mp all) (by decide)⟩

end Frame

end Wire

end Supervisor
