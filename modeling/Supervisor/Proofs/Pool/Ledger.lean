import Mathlib.Data.Finset.Basic
import Supervisor.Proofs.Journal.Turn

/-!
# What the pool has handed out

A slot is out when the journal says that it was acquired and not released since. The marks of the
pool tell the same, slot by slot, and they never run past the capacity: this is `World.Ledger`,
which turn after turn preserves.
-/

set_option autoImplicit false
set_option relaxedAutoImplicit false

namespace Supervisor

/-- What the event changes about the slots that are out. -/
def Event.lend : Event → Finset ℕ → Finset ℕ
  | .acquired slot, out => insert slot out
  | .released slot, out => out.erase slot
  | _, out => out

/-- The slots that were acquired and not released since. -/
def outstanding (events : List Event) : Finset ℕ :=
  events.foldr Event.lend ∅

/-- The event leaves the pool as it was. -/
def Event.OffPool : Event → Prop
  | .acquired _ | .released _ => False
  | _ => True

namespace Event.OffPool

variable {e : Event}

theorem lend_eq (off : e.OffPool) (out : Finset ℕ) : e.lend out = out := by
  cases e with
  | acquired | released => exact off.elim
  | _ => rfl

theorem mark_eq (off : e.OffPool) (inUse : List Bool) : e.mark inUse = inUse := by
  cases e with
  | acquired | released => exact off.elim
  | _ => rfl

theorem foldr_eq {α : Type} {change : Event → α → α} {told : List Event}
    (silent : ∀ e, e.OffPool → ∀ a, change e a = a) (off : ∀ e ∈ told, e.OffPool) (a : α) :
    told.foldr change a = a := by
  induction told with
  | nil => rfl
  | cons e told ih =>
    rw [List.foldr_cons, ih fun e later ↦ off e (List.mem_cons_of_mem _ later)]
    exact silent e (off e List.mem_cons_self) a

end Event.OffPool

/-- As long as a slot is not released, it stays out. -/
theorem mem_outstanding_append {newer older : List Event} {slot : ℕ}
    (out : slot ∈ outstanding older) (kept : .released slot ∉ newer) :
    slot ∈ outstanding (newer ++ older) := by
  induction newer with
  | nil => exact out
  | cons e newer ih =>
    have before := ih fun later ↦ kept (List.mem_cons_of_mem _ later)
    show slot ∈ e.lend (outstanding (newer ++ older))
    cases e with
    | acquired other => exact Finset.mem_insert_of_mem before
    | released other =>
      have another : slot ≠ other := fun same ↦ kept (same ▸ List.mem_cons_self)
      exact Finset.mem_erase_of_ne_of_mem another before
    | _ => exact before

namespace World

variable {σ : Type} {w w' origin : World σ} {told : List Event}

/-- A turn leaves the pool alone, or a slot is acquired, or one is released. -/
theorem Enters.pool (enters : w.Enters told) :
    (∀ e ∈ told, e.OffPool) ∨
      (∃ slot, told = [.acquired slot, .fresh (.pooled slot)] ∧ slot = w.inUse.findIdx (!·) ∧
        (slot < w.inUse.length ∨ slot < w.capacity)) ∨
      ∃ slot, told = [.released slot, .fresh (.pooled slot)] := by
  cases enters with
  | nothing => exact .inl (by simp)
  | @plain e plain =>
    refine .inl fun e' one ↦ ?_
    obtain rfl := List.mem_singleton.mp one
    cases e' with
    | acquired | released => exact plain.elim
    | _ => trivial
  | ended => exact .inl (by simp [Event.OffPool])
  | signalled => exact .inl (by simp [Event.OffPool])
  | acquired first room => exact .inr (.inl ⟨_, rfl, first, room⟩)
  | released => exact .inr (.inr ⟨_, rfl⟩)

/-- Marks and journal agree on the slots. -/
structure Ledger (w : World σ) : Prop where
  out : ∀ slot, slot ∈ outstanding w.journal ↔ w.inUse[slot]? = some true
  made : ∀ slot, .acquired slot ∈ w.journal → slot < w.inUse.length
  room : w.inUse.length ≤ w.capacity

theorem Untouched.ledger (untouched : w.Untouched) : w.Ledger := by
  obtain ⟨empty, quiet, -⟩ := untouched
  refine ⟨fun slot ↦ ?_, fun slot earlier ↦ ?_, ?_⟩
  · simp [quiet, empty, outstanding]
  · rw [quiet] at earlier
    exact absurd earlier List.not_mem_nil
  · rw [empty]
    exact Nat.zero_le _

theorem Turn.capacity_eq (turn : w.Turn w' told) : w'.capacity = w.capacity := by
  rw [capacity, turn.pool, capacity]

theorem Turn.outstanding_eq (turn : w.Turn w' told) :
    outstanding w'.journal = told.foldr Event.lend (outstanding w.journal) := by
  rw [turn.journal, outstanding, List.foldr_append, outstanding]

theorem getElem?_mark_acquired {slot : ℕ} {inUse : List Bool} (next : slot ≤ inUse.length) (n : ℕ) :
    ((Event.acquired slot).mark inUse)[n]? = some true ↔ n = slot ∨ inUse[n]? = some true := by
  rw [Event.mark]
  by_cases below : slot < inUse.length
  · rw [if_pos below]
    by_cases same : slot = n
    · subst same
      simp [below]
    · simp [List.getElem?_set_ne same, Ne.symm same]
  · rw [if_neg below]
    obtain rfl : slot = inUse.length := Nat.le_antisymm next (Nat.le_of_not_lt below)
    rcases Nat.lt_trichotomy n inUse.length with below | rfl | above
    · rw [List.getElem?_append_left below, or_iff_right (Nat.ne_of_lt below)]
    · simp
    · have outside : (inUse ++ [true])[n]? = none :=
        List.getElem?_eq_none (List.length_append ▸ above)
      simp [outside, Nat.ne_of_gt above, Nat.le_of_lt above]

theorem length_mark_acquired {slot : ℕ} {inUse : List Bool} (next : slot ≤ inUse.length) :
    ((Event.acquired slot).mark inUse).length = max inUse.length (slot + 1) := by
  rw [Event.mark]
  split
  · rw [List.length_set]
    omega
  · rw [List.length_append, List.length_singleton]
    omega

theorem getElem?_mark_released {slot : ℕ} {inUse : List Bool} (n : ℕ) :
    ((Event.released slot).mark inUse)[n]? = some true ↔ n ≠ slot ∧ inUse[n]? = some true := by
  rw [Event.mark]
  by_cases same : slot = n
  · subst same
    simp [List.getElem?_set]
  · simp [List.getElem?_set_ne same, Ne.symm same]

namespace Ledger

variable {slot : ℕ}

theorem of_offPool (ledger : w.Ledger) (turn : w.Turn w' told) (off : ∀ e ∈ told, e.OffPool) :
    w'.Ledger := by
  have marks : w'.inUse = w.inUse :=
    turn.inUse.trans (Event.OffPool.foldr_eq (fun _ off ↦ off.mark_eq) off _)
  have out : outstanding w'.journal = outstanding w.journal :=
    turn.outstanding_eq.trans (Event.OffPool.foldr_eq (fun _ off ↦ off.lend_eq) off _)
  refine ⟨fun slot ↦ ?_, fun slot earlier ↦ ?_, ?_⟩
  · rw [out, marks]
    exact ledger.out slot
  · rw [turn.journal, List.mem_append, or_iff_right (off _)] at earlier
    rw [marks]
    exact ledger.made slot earlier
  · rw [marks, turn.capacity_eq]
    exact ledger.room

theorem of_acquired (ledger : w.Ledger)
    (turn : w.Turn w' [.acquired slot, .fresh (.pooled slot)]) (next : slot ≤ w.inUse.length)
    (room : slot < w.inUse.length ∨ slot < w.capacity) : w'.Ledger := by
  have marks : w'.inUse = (Event.acquired slot).mark w.inUse := turn.inUse
  have out : outstanding w'.journal = insert slot (outstanding w.journal) := turn.outstanding_eq
  have length := length_mark_acquired next
  refine ⟨fun n ↦ ?_, fun n earlier ↦ ?_, ?_⟩
  · rw [out, marks, getElem?_mark_acquired next, ← ledger.out, Finset.mem_insert]
  · rw [marks, length]
    have known : n = slot ∨ .acquired n ∈ w.journal := by simpa [turn.journal] using earlier
    rcases known with rfl | earlier
    · omega
    · have below := ledger.made n earlier
      omega
  · have before := ledger.room
    rw [marks, length, turn.capacity_eq]
    omega

theorem of_released (ledger : w.Ledger)
    (turn : w.Turn w' [.released slot, .fresh (.pooled slot)]) : w'.Ledger := by
  have marks : w'.inUse = (Event.released slot).mark w.inUse := turn.inUse
  have out : outstanding w'.journal = (outstanding w.journal).erase slot := turn.outstanding_eq
  have length : w'.inUse.length = w.inUse.length := by rw [marks, Event.mark, List.length_set]
  refine ⟨fun n ↦ ?_, fun n earlier ↦ ?_, ?_⟩
  · rw [out, marks, getElem?_mark_released, ← ledger.out, Finset.mem_erase]
  · rw [length]
    exact ledger.made n (by simpa [turn.journal] using earlier)
  · rw [length, turn.capacity_eq]
    exact ledger.room

theorem turn (ledger : w.Ledger) (turn : w.Turn w' told) : w'.Ledger := by
  rcases turn.enters.pool with off | ⟨slot, rfl, first, room⟩ | ⟨slot, rfl⟩
  · exact ledger.of_offPool turn off
  · exact ledger.of_acquired turn (first ▸ List.findIdx_le_length) room
  · exact ledger.of_released turn

end Ledger

theorem Turns.ledger (untouched : origin.Untouched) (turns : origin.Turns w) : w.Ledger := by
  induction turns with
  | refl => exact untouched.ledger
  | tail _ turn ih =>
    obtain ⟨told, turn⟩ := turn
    exact ih.turn turn

theorem Arises.ledger {control : ProcessControl σ} (arises : w.Arises control) : w.Ledger := by
  obtain ⟨origin, untouched, turns⟩ := arises.turns
  exact turns.ledger untouched

end World

end Supervisor
