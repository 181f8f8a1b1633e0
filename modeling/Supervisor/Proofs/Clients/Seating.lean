import Mathlib.Data.Set.Card
import Mathlib.Logic.Function.Basic
import Supervisor.Proofs.Pool.Allocation

/-!
# Seats of clients

The slots of a session are a finite partial map from indices to clients, and every operation on
clients is an update of that map: a client who comes in takes the least index that is free, one who
leaves frees one index, and a connection that goes frees all of its own. `World.seats` is the map of
one session; the lemmas below say what each operation answers and what it makes of the map.
-/

set_option autoImplicit false
set_option relaxedAutoImplicit false

namespace Supervisor

namespace Slots

variable (slots : Slots)

/-- The first free slot has the least index at which nobody sits. -/
theorem isLeast_firstFree : IsLeast {i | slots.clientAt i = none} slots.firstFree := by
  refine ⟨slots.clientAt_firstFree, fun i free ↦ ?_⟩
  by_contra early
  have before : i < slots.firstFree := Nat.lt_of_not_le early
  have within : i < slots.length := Nat.lt_of_lt_of_le before slots.firstFree_le_length
  have taken : slots[i].isTaken = true := by
    simpa using List.not_of_lt_findIdx (p := fun slot : ClientSlot ↦ !slot.isTaken) before
  have vacant : slots[i].client? = none :=
    (slots.clientAt_of_getElem? (List.getElem?_eq_getElem within)).symm.trans free
  rw [ClientSlot.isTaken_eq, vacant] at taken
  cases taken

theorem finite_of_taken {p : Option Client → Bool} (free : p none = false) :
    {i | p (slots.clientAt i)}.Finite := by
  refine (Set.finite_lt_nat slots.length).subset fun i holds ↦ ?_
  by_contra beyond
  have here : p (slots.clientAt i) = true := holds
  rw [slots.clientAt_of_length_le (Nat.le_of_not_lt beyond), free] at here
  cases here

/-- To count slots is to count indices, as long as free slots do not count. -/
theorem countP_eq_ncard {p : Option Client → Bool} (free : p none = false) :
    slots.countP (fun slot ↦ p slot.client?) = {i | p (clientAt slots i)}.ncard := by
  induction slots with
  | nil =>
    have empty : {i | p (clientAt [] i)} = ∅ := by
      ext i
      have nobody : clientAt [] i = none := clientAt_of_length_le [] (Nat.zero_le i)
      simp [nobody, free]
    rw [empty, Set.ncard_empty, List.countP_nil]
  | cons slot slots ih =>
    have shifted : (Nat.succ '' {i | p (clientAt slots i)}).ncard =
        slots.countP fun slot ↦ p slot.client? := by
      rw [Set.ncard_image_of_injective _ Nat.succ_injective, ih]
    have first : clientAt (slot :: slots) 0 = slot.client? := rfl
    have rest (i : ℕ) : clientAt (slot :: slots) (i + 1) = clientAt slots i := rfl
    have finite := (finite_of_taken slots free).image Nat.succ
    by_cases counts : p slot.client? = true
    · have split : {i | p (clientAt (slot :: slots) i)} =
          insert 0 (Nat.succ '' {i | p (clientAt slots i)}) := by
        ext i
        cases i with
        | zero => simp [first, counts]
        | succ i => simp [rest]
      rw [split, Set.ncard_insert_of_notMem (by simp) finite, shifted,
        List.countP_cons_of_pos (p := fun slot : ClientSlot ↦ p slot.client?) counts]
    · have split : {i | p (clientAt (slot :: slots) i)} =
          Nat.succ '' {i | p (clientAt slots i)} := by
        ext i
        cases i with
        | zero => simp [first, counts]
        | succ i => simp [rest]
      rw [split, shifted, 
        List.countP_cons_of_neg (p := fun slot : ClientSlot ↦ p slot.client?) counts]

theorem attached_eq_ncard : slots.attached = {i | (slots.clientAt i).isSome}.ncard := by
  rw [← slots.countP_eq_ncard rfl]
  exact List.countP_congr fun slot _ ↦ by rw [slot.isTaken_eq]

theorem fst_detachConnection (connection : ConnectionId) : (slots.detachConnection connection).1 =
    {i | (slots.clientAt i).any (·.belongsTo connection)}.ncard := by
  rw [← slots.countP_eq_ncard rfl]
  exact List.countP_congr fun slot _ ↦ by rw [slot.belongsTo_eq]

end Slots

namespace World

variable {σ : Type} (w : World σ) (h : Handle)

/-- Who sits where in a session. -/
def seats : Nat → Option Client :=
  (w.session h).clients.clientAt

/-- The indices of a session at which nobody sits. -/
def vacant : Set Nat :=
  {i | w.seats h i = none}

variable {w h} {w' : World σ} {k : Handle}

theorem isLeast_firstFree : IsLeast (w.vacant h) (w.session h).clients.firstFree :=
  (w.session h).clients.isLeast_firstFree

theorem seats_of_clients {slots : Slots} (clients : (w'.session h).clients = slots) :
    w'.seats h = slots.clientAt :=
  congrArg Slots.clientAt clients

theorem seats_reseat (w : World σ) (h : Handle) (slots : Slots) :
    (w.modify h (Proxy.modify fun s ↦ { s with clients := slots })).seats h = slots.clientAt :=
  seats_of_clients (congrArg (·.session.clients) (proxy_modify_self w h _))

theorem seats_modify_of_ne (w : World σ) (f : Proxy → Proxy) (ne : k ≠ h) :
    (w.modify h f).seats k = w.seats k :=
  seats_of_clients (congrArg (·.session.clients) (proxy_modify_of_ne w f ne))

/-! ### Edits -/

theorem session_edit_self (e : Edit) : (w.edit h e).2.session h = (e.apply (w.proxy h)).2.session :=
  congrArg Proxy.session (proxy_edit_self w h e)

theorem seats_edit_of_ne (e : Edit) (ne : k ≠ h) : (w.edit h e).2.seats k = w.seats k :=
  seats_of_clients (congrArg (·.session.clients) (proxy_put_of_ne w _ ne))

theorem seats_reserve : (w.edit h .reserveSlot).2.seats h = w.seats h := by
  rw [seats_of_clients (congrArg Session.clients (session_edit_self _))]
  exact funext (w.session h).clients.clientAt_reserve

theorem seats_attach (client : Client) : (w.edit h (.attach client)).2.seats h =
    Function.update (w.seats h) (w.session h).clients.firstFree (some client) := by
  rw [seats_of_clients (congrArg Session.clients (session_edit_self _))]
  funext i
  rw [Function.update_apply]
  exact (w.session h).clients.clientAt_install client i

theorem seats_detach (freed : Nat) :
    (w.edit h (.detach freed)).2.seats h = Function.update (w.seats h) freed none := by
  rw [seats_of_clients (congrArg Session.clients (session_edit_self _))]
  funext i
  rw [Function.update_apply]
  exact (w.session h).clients.clientAt_detach freed i

/-- To free what is free changes nothing. -/
theorem session_detach_of_free {freed : Nat} (free : w.seats h freed = none) :
    (w.edit h (.detach freed)).2.session h = w.session h := by
  have same : ((w.session h).clients.detach freed).2 = (w.session h).clients := by
    rw [Slots.detach_eq]
    exact if_pos free
  rw [session_edit_self]
  show { w.session h with clients := ((w.session h).clients.detach freed).2 } = w.session h
  rw [same]

theorem seats_detachConnection (connection : ConnectionId) (i : Nat) :
    (w.edit h (.detachConnection connection)).2.seats h i =
      if (w.seats h i).any (·.belongsTo connection) then none else w.seats h i := by
  rw [seats_of_clients (congrArg Session.clients (session_edit_self _))]
  exact (w.session h).clients.clientAt_detachConnection connection i

theorem seats_reset : (w.reset h).seats h = fun _ ↦ none := by
  rw [seats_of_clients (congrArg (·.session.clients) (proxy_reset_self w h))]
  rfl

theorem seats_reset_of_ne (ne : k ≠ h) : (w.reset h).seats k = w.seats k :=
  seats_modify_of_ne w _ ne

/-! ### Moves -/

/-- Another id is that of another proxy. -/
theorem get?_ne {source target : SessionId} {giver taker : Handle} (ne : source ≠ target)
    (gives : w.get? source = some giver) (takes : w.get? target = some taker) : giver ≠ taker := by
  obtain ⟨slot, found, rfl⟩ := Option.map_eq_some_iff.mp gives
  obtain ⟨other, found', rfl⟩ := Option.map_eq_some_iff.mp takes
  rintro same
  obtain rfl := Handle.pooled.inj same
  have number := (slotOf?_eq_some_iff.mp found).1
  have number' := (slotOf?_eq_some_iff.mp found').1
  exact ne (Int16.toInt_inj.mp (number.trans number'.symm))

/-- What a move between two sessions does: the client goes from the giver's slot to the least
index that is free with the taker. -/
structure Moves (w : World σ) (source target : SessionId) (slot index : Nat) (w' : World σ)
    (giver taker : Handle) (client : Client) : Prop where
  gives : w.get? source = some giver
  takes : w.get? target = some taker
  apart : giver ≠ taker
  sat : w.seats giver slot = some client
  least : IsLeast (w.vacant taker) index
  freed : w'.seats giver = Function.update (w.seats giver) slot none
  seated : w'.seats taker = Function.update (w.seats taker) index (some client)
  others : ∀ h, h ≠ giver → h ≠ taker → w'.seats h = w.seats h

/-- A move changes nothing, because it is refused or has nowhere to go, or it moves the client. -/
theorem moveClient_cases (w : World σ) (source target : SessionId) (slot : Nat) :
    (w.moveClient source target slot).2 = w ∧
        (source = target ∨ ∃ fault, (w.moveClient source target slot).1 = .error fault) ∨
      ∃ index giver taker client, (w.moveClient source target slot).1 = .ok index ∧
        w.Moves source target slot index (w.moveClient source target slot).2 giver taker
          client := by
  unfold moveClient
  split
  · exact .inl ⟨rfl, .inr ⟨_, rfl⟩⟩
  next giver gives =>
    split
    next same => exact .inl ⟨rfl, .inl same⟩
    next ne =>
      split
      · exact .inl ⟨rfl, .inr ⟨_, rfl⟩⟩
      next taker takes =>
        have apart := get?_ne ne gives takes
        split
        · exact .inl ⟨rfl, .inr ⟨_, rfl⟩⟩
        split
        · exact .inl ⟨rfl, .inr ⟨_, rfl⟩⟩
        next client left detached =>
          have sat : w.seats giver slot = some client :=
            (congrArg Prod.fst ((w.session giver).clients.detach_eq slot)).symm.trans
              (congrArg Prod.fst detached)
          have left' : left = ((w.session giver).clients.detach slot).2 :=
            (congrArg Prod.snd detached).symm
          refine .inr ⟨(w.session taker).clients.firstFree, giver, taker, client, rfl, gives, takes,
            apart, sat, isLeast_firstFree, ?_, ?_, fun h away away' ↦ ?_⟩
          · rw [seats_modify_of_ne _ _ apart, seats_reseat, left']
            funext i
            rw [Function.update_apply]
            exact (w.session giver).clients.clientAt_detach slot i
          · rw [seats_reseat]
            funext i
            rw [Function.update_apply]
            exact (w.session taker).clients.clientAt_install client i
          · rw [seats_modify_of_ne _ _ away', seats_modify_of_ne _ _ away]

end World

end Supervisor
