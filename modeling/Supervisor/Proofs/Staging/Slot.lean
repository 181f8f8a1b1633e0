import Supervisor.Proofs.Flight.Basic
import Supervisor.Proofs.Wire.Grammar

/-!
# What becomes of a staged payload

The journal tells all that happens to the slot of a staged payload: something is staged in it, it is
cleared, or a link takes a frame with what was in it (`Event.slotChange?`). What a link took is read
from the bytes of the frame. Besides, a reset clears every slot.

`SlotTurn` is what one step may do to a slot, and `World.SlotLaw` what any number of steps then
amount to (`SlotLaw.step`). The payloads that were delivered, followed by the one that is still in
the slot, are among those that were staged, in the same order. And the slot holds what the last
change left there, unless a reset has cleared it since.
-/

set_option autoImplicit false
set_option relaxedAutoImplicit false

namespace Supervisor

variable {σ : Type}

/-! ### The history of a slot -/

inductive SlotChange
  | staged (content : Bytes)
  | cleared
  | delivered (content : Bytes)
deriving DecidableEq

namespace SlotChange

def staged? : SlotChange → Option Bytes
  | .staged content => some content
  | _ => none

def delivered? : SlotChange → Option Bytes
  | .delivered content => some content
  | _ => none

end SlotChange

/-- The payload of the given kind in a message. -/
def Message.payload? (kind : PayloadKind) : Message → Option Bytes
  | .staged other content => if other = kind then some content else none
  | _ => none

/-- The payload of the given kind that whoever reads the frame finds in it. -/
def Dispatch.payload? (kind : PayloadKind) (d : Dispatch) : Option Bytes :=
  match (Wire.Frame.read (.ofBytes d.frame)).1 with
  | .ok (m, _) => m.payload? kind
  | .error _ => none

/-- What an event does to the slot of the proxy. -/
def Event.slotChange? (h : Handle) (kind : PayloadKind) : Event → Option SlotChange
  | .edited k (.stage other content) => if k = h ∧ other = kind then some (.staged content) else none
  | .edited k (.unstage other) => if k = h ∧ other = kind then some .cleared else none
  | .accepted d => if d.owner = h then (d.payload? kind).map .delivered else none
  | _ => none

/-- The changes to a slot in their order, where the newest event is the first in the list. -/
def slotChanges (h : Handle) (kind : PayloadKind) (events : List Event) : List SlotChange :=
  events.reverse.filterMap (Event.slotChange? h kind)

/-- All that was staged. -/
def stagings (h : Handle) (kind : PayloadKind) (events : List Event) : List Bytes :=
  (slotChanges h kind events).filterMap SlotChange.staged?

/-- All that links have taken. -/
def deliveries (h : Handle) (kind : PayloadKind) (events : List Event) : List Bytes :=
  (slotChanges h kind events).filterMap SlotChange.delivered?

/-- What the last change leaves in a slot that held `before`, resets aside. -/
def held (h : Handle) (kind : PayloadKind) (before : Option Bytes) (events : List Event) :
    Option Bytes :=
  ((slotChanges h kind events).getLast?.map SlotChange.staged?).getD before

/-- The proxy was reset after the last change to the slot. -/
def ResetSince (h : Handle) (kind : PayloadKind) (events : List Event) : Prop :=
  .fresh h ∈ events.takeWhile fun e ↦ (e.slotChange? h kind).isNone

section

variable {h : Handle} {kind : PayloadKind} {late early : List Event}

theorem slotChanges_append (h : Handle) (kind : PayloadKind) (late early : List Event) :
    slotChanges h kind (late ++ early) = slotChanges h kind early ++ slotChanges h kind late := by
  rw [slotChanges, List.reverse_append, List.filterMap_append]
  rfl

theorem slotChanges_cons (h : Handle) (kind : PayloadKind) (e : Event) (events : List Event) :
    slotChanges h kind (e :: events) =
      slotChanges h kind events ++ (e.slotChange? h kind).toList := by
  rw [slotChanges, List.reverse_cons, List.filterMap_append]
  cases change : e.slotChange? h kind with
  | none => simp [slotChanges, change]
  | some change' => simp [slotChanges, change]

theorem deliveries_append (h : Handle) (kind : PayloadKind) (late early : List Event) :
    deliveries h kind (late ++ early) =
      deliveries h kind early ++ (slotChanges h kind late).filterMap SlotChange.delivered? := by
  rw [deliveries, slotChanges_append, List.filterMap_append]
  rfl

theorem stagings_append (h : Handle) (kind : PayloadKind) (late early : List Event) :
    stagings h kind (late ++ early) =
      stagings h kind early ++ (slotChanges h kind late).filterMap SlotChange.staged? := by
  rw [stagings, slotChanges_append, List.filterMap_append]
  rfl

theorem slotChanges_eq_nil : slotChanges h kind late = [] ↔
    ∀ e ∈ late, e.slotChange? h kind = none := by
  rw [slotChanges, List.filterMap_eq_nil_iff]
  exact forall_congr' fun e ↦ imp_congr_left List.mem_reverse

/-- After events that leave the slot alone, a reset is one of them or was there before. -/
theorem resetSince_append (quiet : slotChanges h kind late = []) :
    ResetSince h kind (late ++ early) ↔ .fresh h ∈ late ∨ ResetSince h kind early := by
  have all : ∀ e ∈ late, (e.slotChange? h kind).isNone := fun e told ↦ by
    rw [slotChanges_eq_nil.mp quiet e told]
    rfl
  rw [ResetSince, List.takeWhile_append_of_pos all, List.mem_append]
  rfl

end

/-! ### Steps -/

/-- What becomes of a slot in one step. A change is all that happens to it, and only what was in it
can be delivered. -/
inductive SlotTurn (reset : Prop) (before : Option Bytes) :
    List SlotChange → Option Bytes → Prop
  | kept : SlotTurn reset before [] before
  | reset (cleared : reset) : SlotTurn reset before [] none
  | staged (content : Bytes) : SlotTurn reset before [.staged content] (some content)
  | cleared : SlotTurn reset before [.cleared] none
  | delivered (content : Bytes) (own : before = some content) :
      SlotTurn reset before [.delivered content] none

namespace SlotTurn

variable {reset : Prop} {before after : Option Bytes} {changes : List SlotChange}

theorem of_still (still : after = before ∨ reset ∧ after = none) :
    SlotTurn reset before [] after := by
  rcases still with rfl | ⟨cleared, rfl⟩
  · exact .kept
  · exact .reset cleared

/-- What is in the slot, or was, moves on from the stagings to the deliveries. -/
theorem sublist (turn : SlotTurn reset before changes after) {delivered staged : List Bytes}
    (order : (delivered ++ before.toList).Sublist staged) :
    (delivered ++ changes.filterMap SlotChange.delivered? ++ after.toList).Sublist
      (staged ++ changes.filterMap SlotChange.staged?) := by
  have earlier : delivered.Sublist staged := (List.sublist_append_left _ _).trans order
  cases turn with
  | kept => simpa using order
  | reset cleared => simpa using earlier
  | staged content =>
    show (delivered ++ [] ++ [content]).Sublist (staged ++ [content])
    rw [List.append_nil]
    exact earlier.append_right [content]
  | cleared =>
    show (delivered ++ [] ++ []).Sublist (staged ++ [])
    simpa using earlier
  | delivered content own =>
    show (delivered ++ [content] ++ []).Sublist (staged ++ [])
    rw [own] at order
    simpa using order

/-- The last change says what is left in the slot. -/
theorem eq_staged? (turn : SlotTurn reset before changes after) {change : SlotChange}
    (last : changes.getLast? = some change) : after = change.staged? := by
  cases turn with
  | kept | reset => cases last
  | staged | cleared | delivered =>
    cases last
    rfl

/-- The slot holds what the last change left, or was reset since. -/
theorem last {h : Handle} {kind : PayloadKind} {late early : List Event} {base : Option Bytes}
    (turn : SlotTurn (.fresh h ∈ late) before (slotChanges h kind late) after)
    (last : before = held h kind base early ∨ before = none ∧ ResetSince h kind early) :
    after = held h kind base (late ++ early) ∨
      after = none ∧ ResetSince h kind (late ++ early) := by
  rw [held, slotChanges_append]
  cases changed : (slotChanges h kind late).getLast? with
  | some change =>
    rw [List.getLast?_append, changed]
    exact .inl (turn.eq_staged? changed)
  | none =>
    have quiet : slotChanges h kind late = [] := List.getLast?_eq_none_iff.mp changed
    rw [quiet] at turn ⊢
    rw [List.append_nil, resetSince_append quiet]
    cases turn with
    | kept => exact last.imp_right (And.imp_right Or.inr)
    | reset reset => exact .inr ⟨rfl, .inl reset⟩

end SlotTurn

namespace World

def slot (h : Handle) (kind : PayloadKind) (w : World σ) : Option Bytes :=
  (w.session h).staged kind

@[simp] theorem slot_note (w : World σ) (e : Event) (h : Handle) (kind : PayloadKind) :
    (w.note e).slot h kind = w.slot h kind :=
  rfl

/-- At most one thing happens to the slot on the way. -/
def SlotStep (h : Handle) (kind : PayloadKind) (w w' : World σ) : Prop :=
  ∃ news, w'.journal = news ++ w.journal ∧
    SlotTurn (.fresh h ∈ news) (w.slot h kind) (slotChanges h kind news) (w'.slot h kind)

/-- What the history of a slot since `base` says of the slot. -/
structure SlotLaw (h : Handle) (kind : PayloadKind) (base w : World σ) : Prop where
  extends_journal : base.journal <:+ w.journal
  in_order : (deliveries h kind (w.since base) ++ (w.slot h kind).toList).Sublist
    ((base.slot h kind).toList ++ stagings h kind (w.since base))
  last : w.slot h kind = held h kind (base.slot h kind) (w.since base) ∨
    w.slot h kind = none ∧ ResetSince h kind (w.since base)

variable {h : Handle} {kind : PayloadKind} {base w w' : World σ}

theorem SlotLaw.refl (h : Handle) (kind : PayloadKind) (w : World σ) : w.SlotLaw h kind w := by
  have none : w.since w = [] := since_eq rfl
  refine ⟨List.suffix_refl _, ?_, .inl ?_⟩
  · rw [none]
    exact List.sublist_append_left _ _
  · rw [none]
    rfl

/-- One more step. -/
theorem SlotLaw.step (law : base.SlotLaw h kind w) (step : w.SlotStep h kind w') :
    base.SlotLaw h kind w' := by
  obtain ⟨early, before⟩ := law.extends_journal
  obtain ⟨late, after, turn⟩ := step
  have known : w.since base = early := since_eq before.symm
  have journal : w'.journal = (late ++ early) ++ base.journal := by
    rw [after, ← before, List.append_assoc]
  have all : w'.since base = late ++ early := since_eq journal
  have order := law.in_order
  have last := law.last
  rw [known] at order last
  refine ⟨⟨_, journal.symm⟩, ?_, ?_⟩
  · rw [all, deliveries_append, stagings_append, ← List.append_assoc (base.slot h kind).toList]
    exact turn.sublist order
  · rw [all]
    exact turn.last last

end World

end Supervisor
