import Supervisor.Proofs.Clients.Move
import Supervisor.Proofs.Clients.Slots

/-!
# What a step does to the slots

A step of a run changes the slots of a session in one of a few ways (`Slots.Change`), or reserves
one, or the session starts as new: `World.SeatStep.cases`. Each of these leaves a slot without a
connection the handle of no client, so that in a world that arises all of them are
(`World.Arises.tidy`).
-/

set_option autoImplicit false
set_option relaxedAutoImplicit false

namespace Supervisor

/-- What can be done to the slots, other than that one is reserved. -/
inductive Slots.Change (slots : Slots) : Slots → Prop
  | kept : Change slots slots
  | installed (client : Client) : Change slots (slots.install client).2
  | detached (index : ℕ) : Change slots (slots.detach index).2
  | connectionDetached (connection : ConnectionId) :
      Change slots (slots.detachConnection connection).2

theorem Slots.Change.tidy {slots slots' : Slots} (change : slots.Change slots')
    (tidy : slots.Tidy) : slots'.Tidy := by
  cases change with
  | kept => exact tidy
  | installed client => exact tidy.install client
  | detached index => exact tidy.detach index
  | connectionDetached connection => exact tidy.detachConnection connection

/-- There is one way only to write a slot. -/
theorem Proxy.Reseated.clients_eq {p p' : Proxy} {index : ℕ} {slot : ClientSlot} {slots : Slots}
    (reseated : p.Reseated p' index slot) (here : slots[index]? = some slot)
    (elsewhere : ∀ i, i ≠ index → slots[i]? = p.session.clients[i]?) :
    p'.session.clients = slots := by
  refine List.ext_getElem? fun i ↦ ?_
  by_cases same : i = index
  · subst same
    exact reseated.here.trans here.symm
  · exact (reseated.elsewhere i same).trans (elsewhere i same).symm

namespace World

variable {σ : Type} {control : ProcessControl σ} {u v w : World σ} {h : Handle}

theorem KeepsSlots.change (kept : u.KeepsSlots h v) :
    (u.session h).clients.Change (v.session h).clients :=
  kept.clients ▸ .kept

theorem Transfers.change {giver taker : Handle} {slot index : ℕ} {client : Client}
    (transfers : u.Transfers giver taker slot index client v) (h : Handle) :
    (u.session h).clients.Change (v.session h).clients := by
  by_cases gives : h = giver
  · subst gives
    have left : (v.session h).clients = ((u.session h).clients.detach slot).2 :=
      transfers.left.clients_eq (Slots.getElem?_detach_self _ transfers.sat)
        fun _ ne ↦ Slots.getElem?_detach_of_ne _ ne
    exact left ▸ .detached slot
  by_cases takes : h = taker
  · subst takes
    obtain rfl : (u.session h).clients.firstFree = index := isLeast_firstFree.unique transfers.least
    have joined : (v.session h).clients = ((u.session h).clients.install client).2 :=
      transfers.joined.clients_eq (Slots.getElem?_install_self _ client)
        fun _ ne ↦ Slots.getElem?_install_of_ne _ client ne
    exact joined ▸ .installed client
  · have same : v.session h = u.session h := congrArg Proxy.session (transfers.others h gives takes)
    exact same ▸ .kept

theorem clients_reserve (w : World σ) (h : Handle) :
    ((w.edit h .reserveSlot).2.session h).clients = (w.session h).clients.reserve.2 :=
  congrArg Session.clients (session_edit_self _)

theorem change_edit {e : Edit} (other : e ≠ .reserveSlot) :
    (u.session h).clients.Change ((u.edit h e).2.session h).clients := by
  have applied := congrArg Session.clients (session_edit_self (w := u) (h := h) e)
  cases e with
  | reserveSlot => exact absurd rfl other
  | attach client => exact applied ▸ .installed client
  | detach slot => exact applied ▸ .detached slot
  | detachConnection connection => exact applied ▸ .connectionDetached connection
  | _ =>
    refine KeepsSlots.change (.edit h ?_)
    trivial

/-- A step changes the slots of a session without reserving one, it reserves one, or the session
starts as new. -/
theorem SeatStep.cases (step : u.SeatStep v) (h : Handle) :
    v.resets h = u.resets h ∧ ((u.session h).clients.Change (v.session h).clients ∨
        v = (u.edit h .reserveSlot).2) ∨
      u.StartsAnew h v := by
  have keeps {v : World σ} (kept : u.KeepsSlots h v) : v.resets h = u.resets h ∧
      ((u.session h).clients.Change (v.session h).clients ∨ v = (u.edit h .reserveSlot).2) :=
    ⟨kept.resets, .inl kept.change⟩
  cases step with
  | edit k e =>
    by_cases same : h = k
    · subst same
      refine .inl ⟨resets_edit u h h e, ?_⟩
      by_cases reserves : e = .reserveSlot
      · exact .inr (reserves ▸ rfl)
      · exact .inl (change_edit reserves)
    · exact .inl (keeps (.edit_of_ne e same))
  | moveClient source target slot =>
    have outcome := moveOutcome u source target slot
    generalize u.moveClient source target slot = answer at outcome ⊢
    cases outcome with
    | moved _ _ _ _ transfers =>
      have journal := congrArg World.journal transfers.rest
      exact .inl ⟨congrArg (List.count (Event.fresh h)) journal, .inl (transfers.change h)⟩
    | _ => exact .inl (keeps (.refl u))
  | reset k =>
    by_cases same : h = k
    · subst same
      exact .inr startsAnew_reset
    · exact .inl (keeps (.reset_of_ne same))
  | acquire =>
    rcases u.acquire_cases h with ⟨-, kept⟩ | ⟨-, anew⟩
    · exact .inl (keeps kept)
    · exact .inr anew
  | release id =>
    rcases u.release_cases h id with ⟨-, kept⟩ | ⟨-, anew⟩
    · exact .inl (keeps kept)
    · exact .inr anew
  | aside kept => exact .inl (keeps (kept h))

/-- A slot without a connection is the handle of no client. -/
theorem Arises.tidy (arises : w.Arises control) (h : Handle) : (w.session h).clients.Tidy := by
  obtain ⟨origin, ⟨-, -, new⟩, course⟩ := arises
  have steps := course.seatSteps
  clear course
  induction steps with
  | refl =>
    obtain ⟨settings, createdAt, blank⟩ := new h
    rw [session, blank]
    exact .nil
  | @tail u v _ step tidy =>
    rcases step.cases h with ⟨-, change | rfl⟩ | anew
    · exact change.tidy tidy
    · rw [clients_reserve]
      exact tidy.reserve
    · rw [anew.clients]
      exact .nil

end World

end Supervisor
