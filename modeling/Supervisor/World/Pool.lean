import Supervisor.World.Process

/-!
# The pool of proxies

Proxies of the pool are cleared and handed out again rather than replaced. A session of the pool has
the index of its slot for an id, and the lowest free one is taken first. An id is looked up by slot,
whatever id the proxy carries by then.
-/

set_option autoImplicit false
set_option relaxedAutoImplicit false

namespace Supervisor.World

variable {σ : Type}

/-- Most slots that the pool will have. No more than the ids that a session can carry. -/
def capacity (w : World σ) : Nat :=
  min w.settings.maxSessions (2 ^ 15)

/-- Handles of the proxies that are handed out, in the order of their slots. -/
def active (w : World σ) : List Handle :=
  ((List.range w.inUse.length).filter fun slot ↦ w.inUse[slot]? = some true).map .pooled

/-- The slot of an id that is handed out. -/
def slotOf? (w : World σ) (id : SessionId) : Option Nat :=
  if 0 ≤ id ∧ w.inUse[id.toInt.toNat]? = some true then some id.toInt.toNat else none

def get? (w : World σ) (id : SessionId) : Option Handle :=
  (w.slotOf? id).map .pooled

def setId (h : Handle) (id : SessionId) (w : World σ) : World σ :=
  w.modify h (Proxy.modify fun s ↦ { s with id := id })

/-- Hands out the proxy of a slot that is free. -/
def reuse (slot : Nat) (w : World σ) : World σ :=
  let w := (w.reset (.pooled slot)).setId (.pooled slot) (Int16.ofNat slot)
  { w.note (.acquired slot) with inUse := w.inUse.set slot true }

/-- Adds a slot with a new proxy and hands that out. -/
def grow (w : World σ) : World σ :=
  let slot := w.inUse.length
  let w := (w.put (.pooled slot) (Proxy.new w.settings w.today)).note (.fresh (.pooled slot))
  let w := w.setId (.pooled slot) (Int16.ofNat slot)
  { w.note (.acquired slot) with inUse := w.inUse ++ [true] }

/-- Hands out a proxy for a session that is just created. -/
def acquire (w : World σ) : Except Fault Handle × World σ :=
  let slot := w.inUse.findIdx (!·)
  if slot < w.inUse.length then (.ok (.pooled slot), w.reuse slot)
  else if w.capacity ≤ w.inUse.length then (.error (.poolExhausted w.inUse.length), w)
  else (.ok (.pooled slot), w.grow)

/-- Takes the proxy of a session back. -/
def release (id : SessionId) (w : World σ) : Except Fault Unit × World σ :=
  match w.slotOf? id with
  | none => (.error (.unknownSession id), w)
  | some slot =>
    let w := w.reset (.pooled slot)
    (.ok (), { w.note (.released slot) with inUse := w.inUse.set slot false })

def findByTag? (w : World σ) (tag : String) : Option Handle :=
  w.active.find? fun h ↦ (w.session h).tag = some tag

/-- Moves a client from one session to the first free slot of another that takes new work, and gives
that slot. -/
def moveClient (source target : SessionId) (slot : Nat) (w : World σ) :
    Except Fault Nat × World σ :=
  match w.get? source with
  | none => (.error (.unknownSession source), w)
  | some giver =>
    if source = target then
      (if ((w.session giver).clients.clientAt slot).isSome then .ok slot else .error .invalid, w)
    else
      match w.get? target with
      | none => (.error (.unknownSession target), w)
      | some taker =>
        if !(w.session taker).acceptsNewWork then (.error .invalid, w)
        else
          match (w.session giver).clients.detach slot with
          | (none, _) => (.error .invalid, w)
          | (some client, left) =>
            let (index, joined) := (w.session taker).clients.install client
            let w := w.modify giver (Proxy.modify fun s ↦ { s with clients := left })
            (.ok index, w.modify taker (Proxy.modify fun s ↦ { s with clients := joined }))

end Supervisor.World
