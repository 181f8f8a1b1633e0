import Mathlib.Algebra.BigOperators.Group.Finset.Basic
import Mathlib.Algebra.BigOperators.Group.Finset.Piecewise
import Mathlib.Algebra.Order.Group.Multiset
import Supervisor.Proofs.Clients.Seating
import Supervisor.Script

/-!
# Moving a client

A move either leaves the world as it is or takes one client out of one slot of one session and puts
it into one slot of another. `World.MoveOutcome` lists the ways it can go, in the order in which
they are looked for, and `moveOutcome` is that there are no others. What follows for the one who
asks is `moveClient_atomic`: when a move succeeds, which slots it touches, that a refused one
touches none, and that the clients of the pool, counted with multiplicity, are the same before and
after.
-/

set_option autoImplicit false
set_option relaxedAutoImplicit false

namespace Supervisor

/-! ### The clients in the slots -/

namespace Slots

variable (slots : Slots)

/-- Whoever sits in the slots, as often as they do. -/
def clients : Multiset Client :=
  ↑(slots.filterMap ClientSlot.client?)

theorem clients_cons (slot : ClientSlot) :
    clients (slot :: slots) = ↑slot.client?.toList + slots.clients := by
  unfold clients
  cases sat : slot.client? with
  | none =>
    rw [List.filterMap_cons_none sat, Option.toList_none, Multiset.coe_nil, zero_add]
  | some client =>
    rw [List.filterMap_cons_some sat, Option.toList_some, Multiset.coe_add, List.singleton_append]

/-- To write one slot is to exchange what was in it. -/
theorem clients_rewritten {slots' : Slots} {index : Nat} {slot : ClientSlot}
    (here : slots'[index]? = some slot)
    (elsewhere : ∀ i, i ≠ index → slots'[i]? = slots[i]?) :
    slots'.clients + ↑(slots.clientAt index).toList = slots.clients + ↑slot.client?.toList := by
  induction slots generalizing slots' index with
  | nil =>
    cases slots' with
    | nil => cases here
    | cons first rest =>
      cases index with
      | succ index => cases elsewhere 0 (Nat.succ_ne_zero _).symm
      | zero =>
        obtain rfl : first = slot := Option.some.inj here
        obtain rfl : rest = [] :=
          List.ext_getElem? fun i ↦ elsewhere (i + 1) (Nat.succ_ne_zero _)
        have free : clientAt [] 0 = none := rfl
        rw [free, clients_cons, Option.toList_none, Multiset.coe_nil, add_zero, add_comm]
  | cons old slots ih =>
    cases slots' with
    | nil =>
      cases index with
      | zero => cases here
      | succ index => cases elsewhere 0 (Nat.succ_ne_zero _).symm
    | cons first rest =>
      cases index with
      | zero =>
        obtain rfl : first = slot := Option.some.inj here
        obtain rfl : rest = slots :=
          List.ext_getElem? fun i ↦ elsewhere (i + 1) (Nat.succ_ne_zero _)
        have sat : clientAt (old :: rest) 0 = old.client? := rfl
        rw [sat, clients_cons, clients_cons, add_comm, ← add_assoc, add_right_comm]
      | succ index =>
        obtain rfl : first = old :=
          Option.some.inj (elsewhere 0 (Nat.succ_ne_zero _).symm)
        have below : rest[index]? = some slot := here
        have balanced := ih below fun i ne ↦ elsewhere (i + 1) (Nat.succ_ne_succ_iff.mpr ne)
        have sat : clientAt (first :: slots) (index + 1) = clientAt slots index := rfl
        rw [sat, clients_cons, clients_cons, add_assoc, add_assoc, balanced]

theorem getElem?_of_clientAt {index : Nat} {client : Client}
    (sat : slots.clientAt index = some client) : slots[index]? = some (.of client) := by
  rcases Nat.lt_or_ge index slots.length with within | beyond
  · have here := List.getElem?_eq_getElem within
    rw [slots.clientAt_of_getElem? here] at sat
    rw [here, ClientSlot.eq_of_client? sat]
  · rw [slots.clientAt_of_length_le beyond] at sat
    cases sat

theorem getElem?_detach_self {index : Nat} {client : Client}
    (sat : slots.clientAt index = some client) :
    (slots.detach index).2[index]? = some .free := by
  obtain ⟨within, -⟩ := List.getElem?_eq_some_iff.mp (slots.getElem?_of_clientAt sat)
  rw [detach_eq, sat]
  exact List.getElem?_set_self within

theorem getElem?_detach_of_ne {index i : Nat} (ne : i ≠ index) :
    (slots.detach index).2[i]? = slots[i]? := by
  rw [detach_eq]
  dsimp only
  split
  · rfl
  · exact List.getElem?_set_ne ne.symm

theorem getElem?_install_of_ne (client : Client) {i : Nat} (ne : i ≠ slots.firstFree) :
    (slots.install client).2[i]? = slots[i]? := by
  show (slots.reserve.2.set slots.firstFree (.of client))[i]? = _
  rw [List.getElem?_set_ne ne.symm]
  unfold reserve
  dsimp only
  split
  · rfl
  next full =>
    have last : slots.firstFree = slots.length :=
      Nat.le_antisymm slots.firstFree_le_length (Nat.le_of_not_lt full)
    rcases Nat.lt_or_ge i slots.length with within | beyond
    · exact List.getElem?_append_left within
    · have past : (slots ++ [ClientSlot.free]).length ≤ i := by
        rw [List.length_append, List.length_singleton]
        omega
      rw [List.getElem?_eq_none beyond, List.getElem?_eq_none past]

theorem getElem?_install_self (client : Client) :
    (slots.install client).2[slots.firstFree]? = some (.of client) :=
  List.getElem?_set_self slots.firstFree_lt_length_reserve

end Slots

/-- One slot of the session holds something else, and that is all that is different. -/
structure Proxy.Reseated (p p' : Proxy) (index : Nat) (slot : ClientSlot) : Prop where
  here : p'.session.clients[index]? = some slot
  elsewhere : ∀ i, i ≠ index → p'.session.clients[i]? = p.session.clients[i]?
  rest : p.modify (fun s ↦ { s with clients := p'.session.clients }) = p'

namespace World

variable {σ : Type}

/-- The clients that are attached to the sessions of the pool, as often as they are. -/
def attachedClients (w : World σ) : Multiset Client :=
  ∑ h ∈ w.active.toFinset, (w.session h).clients.clients

/-- The client leaves a slot of the giver and comes to the least index that is free with the taker.
Nothing else is different afterwards. -/
structure Transfers (w : World σ) (giver taker : Handle) (slot index : Nat) (client : Client)
    (w' : World σ) : Prop where
  apart : giver ≠ taker
  sat : w.seats giver slot = some client
  least : IsLeast (w.vacant taker) index
  left : (w.proxy giver).Reseated (w'.proxy giver) slot .free
  joined : (w.proxy taker).Reseated (w'.proxy taker) index (.of client)
  others : ∀ h, h ≠ giver → h ≠ taker → w'.proxy h = w.proxy h
  settings : w'.settings = w.settings
  rest : { w' with registry := w.registry } = w

/-! ### How a move can go -/

/-- The answer to a move and the world after it. What is looked at first comes first. -/
inductive MoveOutcome (w : World σ) (source target : SessionId) (slot : Nat) :
    Except Fault Nat × World σ → Prop
  | unknownSource (unknown : w.get? source = none) :
      MoveOutcome w source target slot (.error (.unknownSession source), w)
  | stays {giver : Handle} {client : Client} (gives : w.get? source = some giver)
      (same : source = target) (sat : w.seats giver slot = some client) :
      MoveOutcome w source target slot (.ok slot, w)
  | absent {giver : Handle} (gives : w.get? source = some giver) (same : source = target)
      (free : w.seats giver slot = none) :
      MoveOutcome w source target slot (.error .invalid, w)
  | unknownTarget {giver : Handle} (gives : w.get? source = some giver) (ne : source ≠ target)
      (unknown : w.get? target = none) :
      MoveOutcome w source target slot (.error (.unknownSession target), w)
  | closed {giver taker : Handle} (gives : w.get? source = some giver) (ne : source ≠ target)
      (takes : w.get? target = some taker) (closed : (w.session taker).acceptsNewWork = false) :
      MoveOutcome w source target slot (.error .invalid, w)
  | vacant {giver taker : Handle} (gives : w.get? source = some giver) (ne : source ≠ target)
      (takes : w.get? target = some taker) (free : w.seats giver slot = none) :
      MoveOutcome w source target slot (.error .invalid, w)
  | moved {giver taker : Handle} {client : Client} {index : Nat} {w' : World σ}
      (gives : w.get? source = some giver) (ne : source ≠ target)
      (takes : w.get? target = some taker) (accepts : (w.session taker).acceptsNewWork = true)
      (transfers : w.Transfers giver taker slot index client w') :
      MoveOutcome w source target slot (.ok index, w')

variable {w w' : World σ} {source target : SessionId} {giver taker : Handle} {slot index : Nat}
  {client : Client}

theorem reseated_detach (sat : w.seats giver slot = some client) :
    (w.proxy giver).Reseated ((w.proxy giver).modify fun s ↦
      { s with clients := ((w.session giver).clients.detach slot).2 }) slot .free where
  here := Slots.getElem?_detach_self _ sat
  elsewhere _ ne := Slots.getElem?_detach_of_ne _ ne
  rest := rfl

theorem reseated_install (w : World σ) (taker : Handle) (client : Client) :
    (w.proxy taker).Reseated ((w.proxy taker).modify fun s ↦
      { s with clients := ((w.session taker).clients.install client).2 })
      (w.session taker).clients.firstFree (.of client) where
  here := Slots.getElem?_install_self _ client
  elsewhere _ ne := Slots.getElem?_install_of_ne _ client ne
  rest := rfl

/-- A client is taken out of one session and put into another. -/
theorem transfers_reseat (apart : giver ≠ taker) (sat : w.seats giver slot = some client) :
    w.Transfers giver taker slot (w.session taker).clients.firstFree client
      ((w.modify giver (Proxy.modify fun s ↦
          { s with clients := ((w.session giver).clients.detach slot).2 })).modify taker
        (Proxy.modify fun s ↦ { s with clients := ((w.session taker).clients.install client).2 }))
    where
  apart := apart
  sat := sat
  least := isLeast_firstFree
  left := by
    rw [proxy_modify_of_ne _ _ apart, proxy_modify_self]
    exact reseated_detach sat
  joined := by
    rw [proxy_modify_self, proxy_modify_of_ne _ _ apart.symm]
    exact reseated_install w taker client
  others h away away' := by rw [proxy_modify_of_ne _ _ away', proxy_modify_of_ne _ _ away]
  settings := rfl
  rest := rfl

theorem moveOutcome (w : World σ) (source target : SessionId) (slot : Nat) :
    MoveOutcome w source target slot (w.moveClient source target slot) := by
  unfold moveClient
  split
  next unknown => exact .unknownSource unknown
  next giver gives =>
    split
    next same =>
      cases sat : w.seats giver slot with
      | none =>
        have free : ((w.session giver).clients.clientAt slot).isSome = false := by
          rw [← seats, sat, Option.isSome_none]
        rw [free]
        exact .absent gives same sat
      | some client =>
        have taken : ((w.session giver).clients.clientAt slot).isSome = true := by
          rw [← seats, sat, Option.isSome_some]
        rw [taken]
        exact .stays gives same sat
    next ne =>
      split
      next unknown => exact .unknownTarget gives ne unknown
      next taker takes =>
        split
        next closed => exact .closed gives ne takes (Bool.not_eq_true' _ |>.mp closed)
        next accepts =>
          have sat : w.seats giver slot = ((w.session giver).clients.detach slot).1 :=
            (congrArg Prod.fst ((w.session giver).clients.detach_eq slot)).symm
          split
          next detached => exact .vacant gives ne takes (sat.trans (congrArg Prod.fst detached))
          next client left detached =>
            rw [detached] at sat
            obtain rfl : ((w.session giver).clients.detach slot).2 = left :=
              congrArg Prod.snd detached
            refine .moved gives ne takes ?_ (transfers_reseat (get?_ne ne gives takes) sat)
            simpa using accepts

/-! ### The clients of the pool -/

theorem mem_active_of_get? {id : SessionId} {h : Handle} (found : w.get? id = some h) :
    h ∈ w.active := by
  obtain ⟨place, held, rfl⟩ := Option.map_eq_some_iff.mp found
  have inUse := (slotOf?_eq_some_iff.mp held).2
  obtain ⟨below, -⟩ := List.getElem?_eq_some_iff.mp inUse
  exact List.mem_map_of_mem
    (List.mem_filter.mpr ⟨List.mem_range.mpr below, decide_eq_true inUse⟩)

namespace Transfers

theorem active (transfers : w.Transfers giver taker slot index client w') :
    w'.active = w.active := by
  have inUse : w'.inUse = w.inUse := by rw [← transfers.rest]
  unfold World.active
  rw [inUse]

/-- Session by session, the clients after a transfer together with the one who left are those before
together with the one who came. -/
theorem clients_balance (transfers : w.Transfers giver taker slot index client w') (h : Handle) :
    ((w'.session h).clients.clients + if h = giver then {client} else 0 : Multiset Client) =
      (w.session h).clients.clients + if h = taker then {client} else 0 := by
  obtain ⟨apart, sat, least, left, joined, others, -, -⟩ := transfers
  by_cases gives : h = giver
  · subst gives
    have exchanged := (w.session h).clients.clients_rewritten left.here left.elsewhere
    rw [show (w.session h).clients.clientAt slot = some client from sat] at exchanged
    rw [if_pos rfl, if_neg apart]
    exact exchanged
  by_cases takes : h = taker
  · subst takes
    have exchanged := (w.session h).clients.clients_rewritten joined.here joined.elsewhere
    rw [show (w.session h).clients.clientAt index = none from least.1] at exchanged
    rw [if_neg gives, if_pos rfl]
    exact exchanged
  · rw [if_neg gives, if_neg takes, session, others h gives takes, session]

/-- A transfer between sessions of the pool loses no client and makes none. -/
theorem attachedClients_eq (transfers : w.Transfers giver taker slot index client w')
    (gives : giver ∈ w.active) (takes : taker ∈ w.active) :
    w'.attachedClients = w.attachedClients := by
  have left : ∑ h ∈ w.active.toFinset, (if h = giver then {client} else 0 : Multiset Client) =
      {client} := by
    rw [Finset.sum_ite_eq', if_pos (List.mem_toFinset.mpr gives)]
  have came : ∑ h ∈ w.active.toFinset, (if h = taker then {client} else 0 : Multiset Client) =
      {client} := by
    rw [Finset.sum_ite_eq', if_pos (List.mem_toFinset.mpr takes)]
  have balance : w'.attachedClients + {client} = w.attachedClients + {client} := by
    unfold attachedClients
    rw [transfers.active]
    calc ∑ h ∈ w.active.toFinset, ((w'.session h).clients.clients : Multiset Client) +
          {client}
        = ∑ h ∈ w.active.toFinset, ((w'.session h).clients.clients +
            if h = giver then {client} else 0 : Multiset Client) := by
          rw [Finset.sum_add_distrib, left]
      _ = ∑ h ∈ w.active.toFinset, ((w.session h).clients.clients +
            if h = taker then {client} else 0 : Multiset Client) :=
          Finset.sum_congr rfl fun h _ ↦ transfers.clients_balance h
      _ = ∑ h ∈ w.active.toFinset, ((w.session h).clients.clients : Multiset Client) +
            {client} := by
          rw [Finset.sum_add_distrib, came]
  exact add_right_cancel balance

end Transfers

/-! ### What the caller sees -/

/-- The fault of a move that is refused: an id that is out of use is told apart from the rest, and
the source is looked at first. -/
def moveFault (w : World σ) (source target : SessionId) : Fault :=
  if (w.get? source).isNone then .unknownSession source
  else if (w.get? target).isNone then .unknownSession target
  else .invalid

namespace MoveOutcome

variable {answer : Except Fault Nat × World σ}

theorem succeeds (outcome : MoveOutcome w source target slot answer) (apart : source ≠ target)
    (gives : w.get? source = some giver) (takes : w.get? target = some taker)
    (accepts : (w.session taker).acceptsNewWork = true) (sat : w.seats giver slot = some client) :
    ∃ index, answer.1 = .ok index := by
  cases outcome with
  | unknownSource unknown => cases unknown.symm.trans gives
  | stays _ _ _ => exact ⟨slot, rfl⟩
  | absent _ same => exact absurd same apart
  | unknownTarget _ _ unknown => cases unknown.symm.trans takes
  | closed _ _ takes' closed =>
    obtain rfl := Option.some.inj (takes'.symm.trans takes)
    cases closed.symm.trans accepts
  | vacant gives' _ _ free =>
    obtain rfl := Option.some.inj (gives'.symm.trans gives)
    cases free.symm.trans sat
  | moved => exact ⟨_, rfl⟩

theorem transfers (outcome : MoveOutcome w source target slot answer) (apart : source ≠ target)
    (succeeded : answer.1 = .ok index) :
    ∃ giver taker client, w.get? source = some giver ∧ w.get? target = some taker ∧
      (w.session taker).acceptsNewWork = true ∧
      w.Transfers giver taker slot index client answer.2 := by
  cases outcome with
  | stays _ same _ => exact absurd same apart
  | moved gives _ takes accepts transfers =>
    obtain rfl := Except.ok.inj succeeded
    exact ⟨_, _, _, gives, takes, accepts, transfers⟩
  | _ => cases succeeded

theorem within (outcome : MoveOutcome w source target slot answer) (same : source = target) :
    answer.2 = w ∧ ∀ index, answer.1 = .ok index ↔
      index = slot ∧ ∃ giver client, w.get? source = some giver ∧
        w.seats giver slot = some client := by
  cases outcome with
  | unknownSource unknown =>
    refine ⟨rfl, fun index ↦ ⟨fun answered ↦ (by cases answered), ?_⟩⟩
    rintro ⟨-, _, _, gives, -⟩
    cases unknown.symm.trans gives
  | stays gives _ sat =>
    refine ⟨rfl, fun index ↦ ⟨fun answered ↦ ?_, fun ⟨here, _⟩ ↦ congrArg Except.ok here.symm⟩⟩
    exact ⟨(Except.ok.inj answered).symm, _, _, gives, sat⟩
  | absent gives _ free =>
    refine ⟨rfl, fun index ↦ ⟨fun answered ↦ (by cases answered), ?_⟩⟩
    rintro ⟨-, _, _, gives', sat⟩
    obtain rfl := Option.some.inj (gives.symm.trans gives')
    cases free.symm.trans sat
  | unknownTarget _ ne => exact absurd same ne
  | closed _ ne => exact absurd same ne
  | vacant _ ne => exact absurd same ne
  | moved _ ne => exact absurd same ne

theorem refused (outcome : MoveOutcome w source target slot answer) {fault : Fault}
    (failed : answer.1 = .error fault) :
    answer.2 = w ∧ fault = w.moveFault source target := by
  unfold moveFault
  cases outcome with
  | stays => cases failed
  | moved => cases failed
  | unknownSource unknown =>
    obtain rfl := Except.error.inj failed
    rw [unknown]
    exact ⟨rfl, rfl⟩
  | absent gives same =>
    obtain rfl := Except.error.inj failed
    rw [← same, gives]
    exact ⟨rfl, rfl⟩
  | unknownTarget gives _ unknown =>
    obtain rfl := Except.error.inj failed
    rw [gives, unknown]
    exact ⟨rfl, rfl⟩
  | closed gives _ takes =>
    obtain rfl := Except.error.inj failed
    rw [gives, takes]
    exact ⟨rfl, rfl⟩
  | vacant gives _ takes =>
    obtain rfl := Except.error.inj failed
    rw [gives, takes]
    exact ⟨rfl, rfl⟩

theorem clients (outcome : MoveOutcome w source target slot answer) :
    answer.2.attachedClients = w.attachedClients := by
  cases outcome with
  | moved gives _ takes _ transfers =>
    exact transfers.attachedClients_eq (mem_active_of_get? gives) (mem_active_of_get? takes)
  | _ => rfl

end MoveOutcome

/-- A move is carried out as a whole or not at all, and keeps the clients of the pool. -/
structure MovesAtomically (w : World σ) (source target : SessionId) (slot : Nat) : Prop where
  /-- Between two sessions both have to be in use, the taker has to take new work, and someone has
  to sit in the slot. -/
  succeeds_iff : source ≠ target →
    ((∃ index, (w.moveClient source target slot).1 = .ok index) ↔
      ∃ giver taker client, w.get? source = some giver ∧ w.get? target = some taker ∧
        (w.session taker).valid = true ∧ (w.session taker).shutdown = false ∧
        w.seats giver slot = some client)
  /-- The answer is where the client went. -/
  transfers : source ≠ target → ∀ index, (w.moveClient source target slot).1 = .ok index →
    ∃ giver taker client, w.get? source = some giver ∧ w.get? target = some taker ∧
      w.Transfers giver taker slot index client (w.moveClient source target slot).2
  /-- Within one session nobody is moved, and the answer is the slot if someone sits there. -/
  within : source = target → (w.moveClient source target slot).2 = w ∧
    ∀ index, (w.moveClient source target slot).1 = .ok index ↔
      index = slot ∧ ∃ giver client, w.get? source = some giver ∧
        w.seats giver slot = some client
  refused : ∀ fault, (w.moveClient source target slot).1 = .error fault →
    (w.moveClient source target slot).2 = w ∧ fault = w.moveFault source target
  clients : (w.moveClient source target slot).2.attachedClients = w.attachedClients

theorem accepts_iff {s : Session} :
    s.acceptsNewWork = true ↔ s.valid = true ∧ s.shutdown = false := by
  simp only [Session.acceptsNewWork, Bool.and_eq_true, Bool.not_eq_true']

theorem moveClient_atomic (w : World σ) (source target : SessionId) (slot : Nat) :
    w.MovesAtomically source target slot := by
  have outcome := moveOutcome w source target slot
  constructor
  case succeeds_iff =>
    intro apart
    constructor
    · rintro ⟨index, succeeded⟩
      obtain ⟨giver, taker, client, gives, takes, accepts, moved⟩ :=
        outcome.transfers apart succeeded
      obtain ⟨valid, running⟩ := accepts_iff.mp accepts
      exact ⟨giver, taker, client, gives, takes, valid, running, moved.sat⟩
    · rintro ⟨giver, taker, client, gives, takes, valid, running, sat⟩
      exact outcome.succeeds apart gives takes (accepts_iff.mpr ⟨valid, running⟩) sat
  case transfers =>
    intro apart index succeeded
    obtain ⟨giver, taker, client, gives, takes, -, moved⟩ := outcome.transfers apart succeeded
    exact ⟨giver, taker, client, gives, takes, moved⟩
  case within => exact outcome.within
  case refused => exact fun _ failed ↦ outcome.refused failed
  case clients => exact outcome.clients

/-- The client goes where another one left, and from a slot beyond the last one nobody is moved. -/
example :
    let newcomer : Client := ⟨⟨1⟩, 4⟩
    let regular : Client := ⟨⟨2⟩, 4⟩
    let w := (start Settings.standard {} ⟨0⟩ Calendar.Timestamp.epoch).performAll
      (Script.host Script.control)
      [.acquire, .acquire, .edit (.pooled 1) (.setValid true), .edit (.pooled 0) (.attach newcomer),
        .edit (.pooled 1) (.attach regular), .edit (.pooled 1) (.attach regular),
        .edit (.pooled 1) (.detach 0)]
    (w.moveClient 0 1 0).1 = .ok 0 ∧ (w.moveClient 0 1 0).2.seats (.pooled 1) 0 = some newcomer ∧
      (w.moveClient 0 1 7).1 = .error .invalid := by decide

end World

end Supervisor
