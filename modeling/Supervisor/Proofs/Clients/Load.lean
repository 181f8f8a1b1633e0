import Mathlib.Data.List.Chain
import Supervisor.Proofs.Clients.Change

/-!
# Slots and load

A slot is added only when all are taken, and none goes before the session starts as new. So a
session has as many slots as it had clients at any one time, or one more if a free one was asked
for: `World.slots_follow_load`.

The largest number of clients is taken over all moments since the session last started as new
(`World.SeatHistory`), and every session that arises has such moments behind it
(`World.Arises.exists_seatHistory`).
-/

set_option autoImplicit false
set_option relaxedAutoImplicit false

namespace Supervisor

/-! ### Slots -/

namespace Slots

variable (slots : Slots)

theorem attached_le_length : slots.attached ≤ slots.length :=
  List.countP_le_length

theorem attached_eq_card : slots.attached = Multiset.card slots.clients := by
  induction slots with
  | nil => rfl
  | cons slot slots ih =>
    rw [clients_cons, Multiset.card_add, ← ih, Multiset.coe_card]
    cases sat : slot.client? <;> simp [attached, slot.isTaken_eq, sat, Nat.add_comm]

theorem attached_install (client : Client) :
    (slots.install client).2.attached = slots.attached + 1 := by
  have exchanged := slots.clients_rewritten (slots.getElem?_install_self client)
    fun _ ne ↦ slots.getElem?_install_of_ne client ne
  rw [slots.clientAt_firstFree, Option.toList_none, Multiset.coe_nil, add_zero] at exchanged
  rw [attached_eq_card, attached_eq_card, exchanged, Multiset.card_add]
  rfl

/-- A slot is added only when all are taken. -/
theorem length_reserve : slots.reserve.2.length = max slots.length (slots.firstFree + 1) := by
  have within := slots.firstFree_le_length
  unfold reserve
  dsimp only
  split
  · omega
  · rw [List.length_append, List.length_singleton]
    omega

theorem length_le_reserve : slots.length ≤ slots.reserve.2.length := by
  rw [length_reserve]
  exact le_max_left _ _

theorem length_install (client : Client) :
    (slots.install client).2.length = max slots.length (slots.firstFree + 1) := by
  show (slots.reserve.2.set slots.firstFree (.of client)).length = _
  rw [List.length_set, length_reserve]

theorem length_detach (index : ℕ) : (slots.detach index).2.length = slots.length := by
  rw [detach_eq]
  dsimp only
  split
  · rfl
  · exact List.length_set

theorem attached_eq_length (full : slots.firstFree = slots.length) :
    slots.attached = slots.length := by
  refine List.countP_eq_length.mpr fun slot found ↦ ?_
  have taken := List.findIdx_eq_length.mp full slot found
  simpa using taken

theorem length_reserve_le : slots.reserve.2.length ≤ max slots.length (slots.attached + 1) := by
  rw [length_reserve]
  rcases Nat.lt_or_eq_of_le slots.firstFree_le_length with free | full
  · omega
  · rw [slots.attached_eq_length full, full]

/-- A slot that is free stays the first one. -/
theorem reserve_reserve : slots.reserve.2.reserve = slots.reserve := by
  have within := slots.firstFree_le_length
  have first : slots.reserve.2.firstFree = slots.firstFree := by
    unfold reserve
    dsimp only
    split
    · rfl
    next full =>
      unfold firstFree at full ⊢
      rw [List.findIdx_append, if_neg full]
      have added : [ClientSlot.free].findIdx (!·.isTaken) = 0 := rfl
      simp only [firstFree] at within
      omega
  rw [reserve, first, if_pos slots.firstFree_lt_length_reserve]
  rfl

variable {slots} {slots' : Slots}

/-- As many slots as before, or as many as there are clients now. -/
theorem Change.length_eq (change : slots.Change slots') :
    slots'.length = max slots.length slots'.attached := by
  have taken := slots'.attached_le_length
  cases change with
  | kept => omega
  | installed client =>
    rw [attached_install, length_install] at *
    rcases Nat.lt_or_eq_of_le slots.firstFree_le_length with free | full
    · omega
    · rw [slots.attached_eq_length full, full]
  | detached index =>
    have length := slots.length_detach index
    omega
  | connectionDetached connection =>
    have length : (slots.detachConnection connection).2.length = slots.length := List.length_map _
    omega

end Slots

namespace World

variable {σ : Type} {control : ProcessControl σ} {u v w : World σ} {h : Handle}

/-! ### Histories -/

/-- The moments of a session since it last started as new, when it had no slots. No step between
them is left out. -/
structure SeatHistory (h : Handle) (ws : List (World σ)) : Prop where
  steps : ws.IsChain SeatStep
  unreset : ∀ u ∈ ws, ∀ v ∈ ws, v.resets h = u.resets h
  empty : ∀ w ∈ ws.head?, (w.session h).clients = []

namespace SeatHistory

variable {ws : List (World σ)} {n : ℕ}

theorem changes (history : SeatHistory h ws) : ws.IsChain fun u v ↦
    (u ∈ ws ∧ v ∈ ws) ∧ ((u.session h).clients.Change (v.session h).clients ∨
      v = (u.edit h .reserveSlot).2) := by
  refine history.steps.imp_of_mem_imp fun u v before after step ↦ ⟨⟨before, after⟩, ?_⟩
  have unreset := history.unreset u before v after
  rcases step.cases h with ⟨-, change⟩ | anew
  · exact change
  · exact absurd (unreset.symm.trans anew.resets) (Nat.ne_of_lt (Nat.lt_succ_self _))

/-- Nobody more ever sat there than there are slots, one of them perhaps reserved. -/
theorem length_le (history : SeatHistory h ws)
    (bound : ∀ v ∈ ws, (v.session h).clients.attached ≤ n) :
    ∀ w ∈ ws, (w.session h).clients.length ≤ n + 1 := by
  refine history.changes.induction _ ws ?_ fun filled ↦ ?_
  · rintro u v ⟨⟨before, after⟩, change | rfl⟩ within
    · have load := bound v after
      rw [change.length_eq]
      omega
    · have load := bound u before
      have reserved := (u.session h).clients.length_reserve_le
      rw [clients_reserve]
      omega
  · rw [history.empty _ (List.head?_eq_some_head filled)]
    exact Nat.zero_le _

theorem length_le_of_unreserved (history : SeatHistory h ws)
    (unreserved : ws.IsChain fun u v ↦ v ≠ (u.edit h .reserveSlot).2)
    (bound : ∀ v ∈ ws, (v.session h).clients.attached ≤ n) :
    ∀ w ∈ ws, (w.session h).clients.length ≤ n := by
  have changes : ws.IsChain fun u v ↦
      v ∈ ws ∧ (u.session h).clients.Change (v.session h).clients := by
    rw [List.isChain_iff_forall_rel_of_append_cons_cons] at unreserved ⊢
    intro u v before after split
    obtain ⟨⟨-, found⟩, change⟩ :=
      List.isChain_iff_forall_rel_of_append_cons_cons.mp history.changes split
    exact ⟨found, change.resolve_right (unreserved split)⟩
  refine changes.induction _ ws ?_ fun filled ↦ ?_
  · rintro u v ⟨after, change⟩ within
    rw [change.length_eq]
    exact max_le within (bound v after)
  · rw [history.empty _ (List.head?_eq_some_head filled)]
    exact Nat.zero_le _

theorem pairwise (history : SeatHistory h ws) :
    ws.Pairwise fun u v ↦ (u.session h).clients.length ≤ (v.session h).clients.length := by
  let shorter (u v : World σ) : Prop := (u.session h).clients.length ≤ (v.session h).clients.length
  have : Trans shorter shorter shorter := ⟨Nat.le_trans⟩
  have grows : ws.IsChain shorter := by
    refine history.changes.imp ?_
    rintro u v ⟨-, change | rfl⟩
    · exact (le_max_left _ _).trans_eq change.length_eq.symm
    · exact (u.session h).clients.length_le_reserve.trans_eq
        (congrArg List.length (clients_reserve u h)).symm
  exact grows.pairwise

theorem length_le_last (history : SeatHistory h ws) (last : ws.getLast? = some w) (found : v ∈ ws) :
    (v.session h).clients.length ≤ (w.session h).clients.length := by
  obtain ⟨before, rfl⟩ := List.getLast?_eq_some_iff.mp last
  rcases List.mem_append.mp found with earlier | now
  · exact (List.pairwise_append.mp history.pairwise).2.2 v earlier w (List.mem_singleton_self w)
  · rw [List.mem_singleton.mp now]

theorem next (history : SeatHistory h ws) (last : ws.getLast? = some u) (step : u.SeatStep v)
    (unreset : v.resets h = u.resets h) : SeatHistory h (ws ++ [v]) := by
  have here : u ∈ ws := List.mem_of_getLast? last
  have counts : ∀ x ∈ ws ++ [v], x.resets h = u.resets h := by
    intro x found
    rcases List.mem_append.mp found with earlier | now
    · exact history.unreset u here x earlier
    · rw [List.mem_singleton.mp now, unreset]
  constructor
  · refine history.steps.append (.singleton v) ?_
    rintro x found y now
    obtain rfl := Option.some.inj (last.symm.trans found)
    obtain rfl := Option.some.inj now
    exact step
  · exact fun x found y found' ↦ (counts y found').trans (counts x found).symm
  · intro x first
    rw [List.head?_append_of_ne_nil _ (List.ne_nil_of_mem here)] at first
    exact history.empty x first

theorem single (empty : (w.session h).clients = []) : SeatHistory h [w] where
  steps := .singleton w
  unreset u found v found' := by rw [List.mem_singleton.mp found, List.mem_singleton.mp found']
  empty u first := Option.some.inj first ▸ empty

end SeatHistory

/-- Every session that arises has such moments behind it. -/
theorem Arises.exists_seatHistory (arises : w.Arises control) (h : Handle) :
    ∃ ws, SeatHistory h ws ∧ ws.getLast? = some w := by
  obtain ⟨origin, ⟨-, -, new⟩, course⟩ := arises
  have steps := course.seatSteps
  clear course
  induction steps with
  | refl =>
    obtain ⟨settings, createdAt, blank⟩ := new h
    exact ⟨[origin], .single (congrArg (·.session.clients) blank), rfl⟩
  | @tail u v _ step ih =>
    obtain ⟨ws, history, last⟩ := ih
    rcases step.cases h with ⟨unreset, -⟩ | anew
    · exact ⟨ws ++ [v], history.next last step unreset, List.getLast?_concat⟩
    · exact ⟨[v], .single anew.clients, rfl⟩

/-! ### Reserving again and again -/

theorem reserve_iterate (w : World σ) (h : Handle) (n : ℕ) :
    ((((fun u ↦ (u.edit h .reserveSlot).2)^[n] w).session h).clients.reserve =
      (w.session h).clients.reserve) ∧
    (((fun u ↦ (u.edit h .reserveSlot).2)^[n] w).session h).clients.length ≤
      (w.session h).clients.reserve.2.length := by
  induction n with
  | zero => exact ⟨rfl, Slots.length_le_reserve _⟩
  | succ n ih =>
    rw [Function.iterate_succ_apply', clients_reserve]
    exact ⟨(Slots.reserve_reserve _).trans ih.1, (congrArg (·.2.length) ih.1).le⟩

/-- Every world that arises has a history of its session behind it. In a history a session has as
many slots as it had clients at the same time, or one more if one was reserved, and never fewer than
before. However often a slot is reserved without anything in between, one slot is added at most and
the answer is the same. -/
theorem slots_follow_load (w : World σ) (h : Handle) :
    (∀ control, w.Arises control → ∃ ws, SeatHistory h ws ∧ ws.getLast? = some w) ∧
    ∀ ws peak, SeatHistory h ws → ws.getLast? = some w →
      IsGreatest {n | ∃ v ∈ ws, (v.session h).clients.attached = n} peak →
      (w.session h).clients.length ≤ peak + 1 ∧
      ((ws.IsChain fun u v ↦ v ≠ (u.edit h .reserveSlot).2) →
        (w.session h).clients.length = peak) ∧
      (ws.Pairwise fun u v ↦ (u.session h).clients.length ≤ (v.session h).clients.length) ∧
      ∃ i, ∀ n, let v := (fun u ↦ (u.edit h .reserveSlot).2)^[n] w
        (v.edit h .reserveSlot).1 = .count i ∧
          (v.session h).clients.length ≤ (w.session h).clients.length + 1 := by
  refine ⟨fun control arises ↦ arises.exists_seatHistory h, fun ws peak history last greatest ↦ ?_⟩
  have here : w ∈ ws := List.mem_of_getLast? last
  have bound : ∀ v ∈ ws, (v.session h).clients.attached ≤ peak :=
    fun v found ↦ greatest.2 ⟨v, found, rfl⟩
  refine ⟨history.length_le bound w here, fun unreserved ↦ ?_, history.pairwise,
    (w.session h).clients.firstFree, fun n ↦ ?_⟩
  · obtain ⟨v, found, full⟩ := greatest.1
    refine Nat.le_antisymm (history.length_le_of_unreserved unreserved bound w here) ?_
    calc peak = (v.session h).clients.attached := full.symm
      _ ≤ (v.session h).clients.length := Slots.attached_le_length _
      _ ≤ (w.session h).clients.length := history.length_le_last last found
  · obtain ⟨same, length⟩ := w.reserve_iterate h n
    have first := (w.session h).clients.firstFree_le_length
    rw [Slots.length_reserve] at length
    have index := congrArg Prod.fst same
    exact ⟨congrArg Edit.Answer.count index, by omega⟩

/-- With two clients at the most, one of whom is moved in, two slots, and a third one for whoever
asks for a free one. -/
theorem slots_follow_load_moved :
    let h := Handle.pooled 0
    let client (n : UInt64) : Client := ⟨⟨n⟩, 1⟩
    let w := (start Settings.standard ({} : Script) ⟨0⟩ Calendar.Timestamp.epoch).performAll
      (Script.host Script.control)
      [.acquire, .acquire, .edit h (.setValid true), .edit (.pooled 1) (.attach (client 1))]
    let attached := (w.edit h (.attach (client 2))).2
    let moved := (attached.moveClient 1 0 0).2
    let detached := (moved.edit h (.detach 0)).2
    let again := (detached.edit h (.attach (client 3))).2
    let ws := [w, attached, moved, detached, again]
    SeatHistory h ws ∧ ws.getLast? = some again ∧
      IsGreatest {n | ∃ v ∈ ws, (v.session h).clients.attached = n} 2 ∧
      (ws.IsChain fun u v ↦ v ≠ (u.edit h .reserveSlot).2) ∧
      (again.session h).clients.length = 2 ∧
      ((again.edit h .reserveSlot).2.session h).clients =
        [.of (client 3), .of (client 1), .free] := by
  intro h client w attached moved detached again ws
  have history : SeatHistory h ws := by
    refine ⟨?_, by decide, by rintro u ⟨⟩; rfl⟩
    exact .cons_cons (.edit h _) <| .cons_cons (.moveClient 1 0 0) <| .cons_cons (.edit h _) <|
      .cons_cons (.edit h _) <| .singleton again
  have bound : ∀ v ∈ ws, (v.session h).clients.attached ≤ 2 := by decide
  have greatest : IsGreatest {n | ∃ v ∈ ws, (v.session h).clients.attached = n} 2 := by
    refine ⟨⟨moved, List.mem_cons_of_mem _ (List.mem_cons_of_mem _ List.mem_cons_self), by decide⟩,
      ?_⟩
    rintro n ⟨v, found, rfl⟩
    exact bound v found
  -- A reservation is entered in the journal, and none of these steps entered one.
  have unreserved : ws.IsChain fun u v ↦ v ≠ (u.edit h .reserveSlot).2 := by
    have other {u v : World Script} (last : v.journal.head? ≠ some (.edited h .reserveSlot)) :
        v ≠ (u.edit h .reserveSlot).2 := by
      rintro rfl
      exact last rfl
    exact .cons_cons (other (by decide)) <| .cons_cons (other (by decide)) <|
      .cons_cons (other (by decide)) <| .cons_cons (other (by decide)) <| .singleton again
  exact ⟨history, rfl, greatest, unreserved,
    ((slots_follow_load again h).2 ws 2 history rfl greatest).2.1 unreserved, by decide⟩

end World

end Supervisor
