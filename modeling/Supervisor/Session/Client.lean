/-!
# Clients and the slots they sit in

A client is a stream that some connection has attached to a session. A session keeps its clients in
slots. A slot is freed by clearing it and never removed, so that the index of every other client
stays the same, and a new client takes the first free slot before the slots grow.

`Slots.clientAt` is the view of the slots as a partial map from indices to clients;
`clientAt_install`, `clientAt_detach`, `clientAt_detachConnection` and `clientAt_reserve` say what
each operation does to that map. A slot that is not taken may hold any number of a stream as a
record, but none of the operations leaves one there: `Slots.Tidy`.
-/

set_option autoImplicit false
set_option relaxedAutoImplicit false

namespace Supervisor

structure ConnectionId where
  number : UInt64
deriving DecidableEq

def ConnectionId.text (c : ConnectionId) : String :=
  "conn#" ++ toString c.number.toNat

structure Client where
  connection : ConnectionId
  /-- Number that the connection chose for the stream. -/
  stream : UInt16
deriving DecidableEq

def Client.belongsTo (client : Client) (connection : ConnectionId) : Bool :=
  client.connection == connection

/-- A place for a client. It is taken when it has a connection. -/
structure ClientSlot where
  connection? : Option ConnectionId
  stream : UInt16
deriving DecidableEq

namespace ClientSlot

/-- The handle of no client. -/
def free : ClientSlot := ⟨none, 0⟩

def of (client : Client) : ClientSlot := ⟨some client.connection, client.stream⟩

def isTaken (slot : ClientSlot) : Bool :=
  slot.connection?.isSome

def belongsTo (slot : ClientSlot) (connection : ConnectionId) : Bool :=
  slot.connection? == some connection

def reset (slot : ClientSlot) : ClientSlot :=
  { slot with connection? := none, stream := 0 }

def client? (slot : ClientSlot) : Option Client :=
  slot.connection?.map fun connection ↦ ⟨connection, slot.stream⟩

@[simp] theorem client?_free : free.client? = none := rfl

@[simp] theorem client?_of (client : Client) : (of client).client? = some client := rfl

@[simp] theorem client?_reset (slot : ClientSlot) : slot.reset.client? = none := rfl

theorem eq_of_client? {slot : ClientSlot} {client : Client} (sat : slot.client? = some client) :
    slot = of client := by
  obtain ⟨connection, held, rfl⟩ := Option.map_eq_some_iff.mp sat
  obtain ⟨own, stream⟩ := slot
  obtain rfl : own = some connection := held
  rfl

theorem isTaken_eq (slot : ClientSlot) : slot.isTaken = slot.client?.isSome :=
  Option.isSome_map.symm

theorem belongsTo_eq (slot : ClientSlot) (connection : ConnectionId) :
    slot.belongsTo connection = slot.client?.any (·.belongsTo connection) := by
  obtain ⟨_ | own, stream⟩ := slot
  · rfl
  · show (some own == some connection) = _
    rw [Option.some_beq_some]
    rfl

end ClientSlot

abbrev Slots := List ClientSlot

namespace Slots

/-- Index of the first free slot, or of the slot that would be added next. -/
def firstFree (slots : Slots) : Nat :=
  slots.findIdx (!·.isTaken)

/-- The first free slot, which is added when all are taken. -/
def reserve (slots : Slots) : Nat × Slots :=
  (slots.firstFree, if slots.firstFree < slots.length then slots else slots ++ [.free])

/-- Puts a client into the first free slot. -/
def install (slots : Slots) (client : Client) : Nat × Slots :=
  let (index, slots) := slots.reserve
  (index, slots.set index (.of client))

/-- The slot at an index, a free one beyond the last. -/
def slotAt (slots : Slots) (index : Nat) : ClientSlot :=
  slots[index]?.getD .free

/-- The client at an index, if one sits there. -/
def clientAt (slots : Slots) (index : Nat) : Option Client :=
  (slots.slotAt index).client?

/-- Frees a slot and gives the client that sat there. -/
def detach (slots : Slots) (index : Nat) : Option Client × Slots :=
  match slots[index]? with
  | none => (none, slots)
  | some slot =>
    match slot.client? with
    | none => (none, slots)
    | some client => (some client, slots.set index slot.reset)

/-- Frees the slots of a connection and gives their number. -/
def detachConnection (slots : Slots) (connection : ConnectionId) : Nat × Slots :=
  (slots.countP (·.belongsTo connection),
    slots.map fun slot ↦ if slot.belongsTo connection then slot.reset else slot)

def attached (slots : Slots) : Nat :=
  slots.countP (·.isTaken)

/-- A slot that is not taken is the handle of no client. -/
def Tidy (slots : Slots) : Prop :=
  ∀ slot ∈ slots, slot.connection? = none → slot = .free

section

variable (slots : Slots)

theorem firstFree_le_length : slots.firstFree ≤ slots.length :=
  List.findIdx_le_length

theorem clientAt_of_getElem? {index : Nat} {slot : ClientSlot} (here : slots[index]? = some slot) :
    slots.clientAt index = slot.client? := by
  rw [clientAt, slotAt, here, Option.getD_some]

theorem clientAt_of_length_le {index : Nat} (beyond : slots.length ≤ index) :
    slots.clientAt index = none := by
  rw [clientAt, slotAt, List.getElem?_eq_none beyond]
  rfl

theorem clientAt_firstFree : slots.clientAt slots.firstFree = none := by
  rcases Nat.lt_or_ge slots.firstFree slots.length with within | beyond
  · have free : (!slots[slots.firstFree].isTaken) = true :=
      List.findIdx_getElem (p := fun slot : ClientSlot ↦ !slot.isTaken) (w := within)
    rw [slots.clientAt_of_getElem? (List.getElem?_eq_getElem within)]
    rw [ClientSlot.isTaken_eq, Option.not_isSome, Option.isNone_iff_eq_none] at free
    exact free
  · exact slots.clientAt_of_length_le beyond

theorem clientAt_reserve (index : Nat) : slots.reserve.2.clientAt index = slots.clientAt index := by
  unfold reserve
  dsimp only
  split
  · rfl
  · rcases Nat.lt_or_ge index slots.length with within | beyond
    · rw [clientAt, clientAt, slotAt, slotAt, List.getElem?_append_left within]
    · rw [slots.clientAt_of_length_le beyond, clientAt, slotAt, List.getElem?_append_right beyond]
      cases index - slots.length <;> rfl

theorem firstFree_lt_length_reserve : slots.firstFree < slots.reserve.2.length := by
  have within := slots.firstFree_le_length
  unfold reserve
  dsimp only
  split
  · assumption
  · rw [List.length_append, List.length_singleton]
    omega

/-- What one slot holds does not show at the others. -/
theorem clientAt_set {written index : Nat} (within : written < slots.length) (slot : ClientSlot) :
    clientAt (slots.set written slot) index =
      if index = written then slot.client? else slots.clientAt index := by
  split
  next here =>
    subst here
    exact clientAt_of_getElem? _ (List.getElem?_set_self within)
  next elsewhere =>
    rw [clientAt, clientAt, slotAt, slotAt, List.getElem?_set_ne (Ne.symm elsewhere)]

theorem clientAt_install (client : Client) (index : Nat) :
    (slots.install client).2.clientAt index =
      if index = slots.firstFree then some client else slots.clientAt index := by
  rw [← clientAt_reserve slots index]
  exact clientAt_set _ slots.firstFree_lt_length_reserve (.of client)

/-- Whoever sits at the index is given, and there is one way only to free it. -/
theorem detach_eq (index : Nat) :
    slots.detach index = (slots.clientAt index,
      if slots.clientAt index = none then slots else slots.set index .free) := by
  unfold detach
  split
  next beyond => rw [clientAt, slotAt, beyond]; rfl
  next slot here =>
    rw [slots.clientAt_of_getElem? here]
    split
    next free => rw [free]; rfl
    next client sat => rw [sat]; rfl

theorem clientAt_detach (freed index : Nat) :
    (slots.detach freed).2.clientAt index =
      if index = freed then none else slots.clientAt index := by
  rw [detach_eq]
  dsimp only
  by_cases free : slots.clientAt freed = none
  · rw [if_pos free]
    split
    next here => rw [here, free]
    next => rfl
  · rw [if_neg free]
    refine clientAt_set slots (Nat.lt_of_not_le fun beyond ↦ ?_) .free
    exact free (slots.clientAt_of_length_le beyond)

theorem clientAt_detachConnection (connection : ConnectionId) (index : Nat) :
    (slots.detachConnection connection).2.clientAt index =
      if (slots.clientAt index).any (·.belongsTo connection) then none
      else slots.clientAt index := by
  rcases Nat.lt_or_ge index slots.length with within | beyond
  · have here := List.getElem?_eq_getElem within
    have after : (slots.detachConnection connection).2[index]? =
        some (if slots[index].belongsTo connection then slots[index].reset else slots[index]) := by
      rw [detachConnection, List.getElem?_map, here, Option.map_some]
    rw [slots.clientAt_of_getElem? here, ← ClientSlot.belongsTo_eq, clientAt_of_getElem? _ after]
    split <;> rfl
  · rw [slots.clientAt_of_length_le beyond]
    exact clientAt_of_length_le _ (by simpa [detachConnection] using beyond)

/-! ### Tidy slots -/

variable {slots}

theorem Tidy.nil : Tidy [] :=
  fun _ found ↦ absurd found List.not_mem_nil

theorem Tidy.reserve (tidy : slots.Tidy) : slots.reserve.2.Tidy := by
  unfold Slots.reserve
  dsimp only
  split
  · exact tidy
  · intro slot found
    rcases List.mem_append.mp found with known | added
    · exact tidy slot known
    · exact fun _ ↦ List.mem_singleton.mp added

theorem Tidy.set (tidy : slots.Tidy) {slot : ClientSlot} (index : Nat)
    (written : slot.connection? = none → slot = .free) : Tidy (slots.set index slot) := by
  intro other found
  rcases List.mem_or_eq_of_mem_set found with known | rfl
  · exact tidy other known
  · exact written

theorem Tidy.install (tidy : slots.Tidy) (client : Client) : (slots.install client).2.Tidy :=
  tidy.reserve.set _ nofun

theorem Tidy.detach (tidy : slots.Tidy) (index : Nat) : (slots.detach index).2.Tidy := by
  rw [detach_eq]
  dsimp only
  split
  · exact tidy
  · exact tidy.set index fun _ ↦ rfl

theorem Tidy.detachConnection (tidy : slots.Tidy) (connection : ConnectionId) :
    (slots.detachConnection connection).2.Tidy := by
  intro slot found
  obtain ⟨old, known, rfl⟩ := List.mem_map.mp found
  split
  · exact fun _ ↦ rfl
  · exact tidy old known

end

end Slots

end Supervisor
