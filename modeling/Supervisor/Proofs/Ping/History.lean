import Supervisor.Proofs.Ping.Standing

/-!
# Pings in the history of a proxy

What is true of a ping at some moment is told by what was done to its proxy up to then: that it was
issued, and by then had not been ended; that it was answered while it was registered, and that
nobody has asked since. All of these say that something happened and that everything after it was
harmless (`Since`), and so they can be followed event by event (`since_cons`).

The pings meant are those that callers open. They are numbered as they are issued, so that the
history also tells which ping an event issued (`issued`).
-/

set_option autoImplicit false
set_option relaxedAutoImplicit false

namespace Supervisor

/-- Of the events, newest first, one was such after the older ones, and all the newer ones are
harmless. -/
def Since (such : Event → List Event → Prop) (harmless : Event → Prop) (events : List Event) :
    Prop :=
  ∃ newer e older, events = newer ++ e :: older ∧ such e older ∧ ∀ later ∈ newer, harmless later

section

variable {such : Event → List Event → Prop} {harmless : Event → Prop} {e : Event}
  {events : List Event}

theorem not_since_nil : ¬ Since such harmless [] := by
  rintro ⟨newer, e, older, split, -⟩
  simp at split

theorem since_cons : Since such harmless (e :: events) ↔
    such e events ∨ harmless e ∧ Since such harmless events := by
  constructor
  · rintro ⟨newer, found, older, split, holds, rest⟩
    cases newer with
    | nil =>
      obtain ⟨rfl, rfl⟩ := List.cons.inj split
      exact .inl holds
    | cons last newer =>
      obtain ⟨rfl, rfl⟩ := List.cons.inj split
      exact .inr ⟨rest e List.mem_cons_self, newer, found, older, rfl, holds,
        fun later found ↦ rest later (List.mem_cons_of_mem _ found)⟩
  · rintro (holds | ⟨quiet, newer, found, older, rfl, holds, rest⟩)
    · exact ⟨[], e, events, rfl, holds, by simp⟩
    · exact ⟨e :: newer, found, older, rfl, holds, by simpa using ⟨quiet, rest⟩⟩

theorem Since.mono {such' : Event → List Event → Prop} {harmless' : Event → Prop}
    (since : Since such harmless events) (happens : ∀ e older, such e older → such' e older)
    (stays : ∀ e, harmless e → harmless' e) : Since such' harmless' events := by
  obtain ⟨newer, e, older, split, holds, rest⟩ := since
  exact ⟨newer, e, older, split, happens e older holds,
    fun later found ↦ stays later (rest later found)⟩

theorem since_append {told : List Event} (none : ∀ e ∈ told, ∀ older, ¬ such e older)
    (quiet : ∀ e ∈ told, harmless e) :
    Since such harmless (told ++ events) ↔ Since such harmless events := by
  induction told with
  | nil => exact Iff.rfl
  | cons e told ih =>
    rw [List.cons_append, since_cons, ih (fun e he ↦ none e (List.mem_cons_of_mem _ he))
      fun e he ↦ quiet e (List.mem_cons_of_mem _ he)]
    exact ⟨fun holds ↦ holds.elim (fun now ↦ absurd now (none e List.mem_cons_self _)) And.right,
      fun holds ↦ .inr ⟨quiet e List.mem_cons_self, holds⟩⟩

end

/-! ### What is told of a ping -/

variable {h : Handle} {ping : Ping} {e : Event} {events : List Event}

/-- Number of pings that callers opened. -/
def issued (h : Handle) (events : List Event) : Nat :=
  events.count (.edited h .openPing)

/-- The event opens the ping. -/
def Issues (h : Handle) (ping : Ping) (e : Event) (older : List Event) : Prop :=
  e = .edited h .openPing ∧ issued h older = ping.serial

/-- The ping is delivered, deleted or dropped, or its table is cleared. -/
def Ends (h : Handle) (ping : Ping) (e : Event) : Prop :=
  e.settlement? h ping.id ≠ none ∨ e = .edited h (.dropPing ping)

def Issued (h : Handle) (ping : Ping) (events : List Event) : Prop :=
  Since (Issues h ping) (fun _ ↦ True) events

/-- The ping was issued, and nothing has ended it since. -/
def Registered (h : Handle) (ping : Ping) (events : List Event) : Prop :=
  Since (Issues h ping) (fun e ↦ ¬ Ends h ping e) events

/-- The ping was issued, and its caller has not dropped it since. -/
def Owned (h : Handle) (ping : Ping) (events : List Event) : Prop :=
  Since (Issues h ping) (fun e ↦ e ≠ .edited h (.dropPing ping)) events

/-- The event delivers a reply to the ping, which is registered. -/
def Answers (h : Handle) (ping : Ping) (e : Event) (older : List Event) : Prop :=
  e.settlement? h ping.id = some .answered ∧ Registered h ping older

/-- A reply was delivered to the ping, and its caller has neither waited for it nor dropped it
since. -/
def Held (h : Handle) (ping : Ping) (events : List Event) : Prop :=
  Since (Answers h ping)
    (fun e ↦ e ≠ .edited h (.awaitPing ping) ∧ e ≠ .edited h (.dropPing ping)) events

theorem issued_cons (h : Handle) (e : Event) (events : List Event) :
    issued h (e :: events) = issued h events + if e = .edited h .openPing then 1 else 0 := by
  simp only [issued, List.count_cons, beq_iff_eq]

/-- Pings are numbered as they are issued. -/
theorem issued_iff_serial_lt : Issued h ping events ↔ ping.serial < issued h events := by
  induction events with
  | nil => exact iff_of_false not_since_nil (Nat.not_lt_zero _)
  | cons e events ih =>
    rw [Issued, since_cons, ← Issued, ih, issued_cons, Issues]
    split
    next opens =>
      simp only [opens, true_and]
      omega
    next silent => simp [silent]

theorem registered_cons : Registered h ping (e :: events) ↔
    Issues h ping e events ∨ ¬ Ends h ping e ∧ Registered h ping events :=
  since_cons

theorem owned_cons : Owned h ping (e :: events) ↔
    Issues h ping e events ∨ e ≠ .edited h (.dropPing ping) ∧ Owned h ping events :=
  since_cons

theorem held_cons : Held h ping (e :: events) ↔ Answers h ping e events ∨
    (e ≠ .edited h (.awaitPing ping) ∧ e ≠ .edited h (.dropPing ping)) ∧ Held h ping events :=
  since_cons

theorem Registered.owned (registered : Registered h ping events) : Owned h ping events :=
  registered.mono (fun _ _ issues ↦ issues) fun _ alive dropped ↦ alive (.inr dropped)

theorem Owned.issued (owned : Owned h ping events) : Issued h ping events :=
  owned.mono (fun _ _ issues ↦ issues) fun _ _ ↦ trivial

/-- An event that issues a ping settles none. -/
theorem Issues.settlement? {older : List Event} (issues : Issues h ping e older) (id : PingId) :
    e.settlement? h id = none := by
  rw [issues.1]
  exact if_pos rfl

theorem Answers.ends {older : List Event} (answers : Answers h ping e older) : Ends h ping e :=
  .inl (by simp [answers.1])

theorem Held.owned (held : Held h ping events) : Owned h ping events := by
  induction events with
  | nil => exact absurd held not_since_nil
  | cons e events ih =>
    rcases held_cons.mp held with answers | ⟨harmless, held⟩
    · refine owned_cons.mpr (.inr ⟨?_, answers.2.owned⟩)
      rintro rfl
      simp [Answers, Event.settlement?, Edit.settlement?] at answers
    · exact owned_cons.mpr (.inr ⟨harmless.2, ih held⟩)

/-- What has been issued is not issued again. -/
theorem Issued.not_issues (issued : Issued h ping events) : ¬ Issues h ping e events :=
  fun issues ↦ absurd issues.2 (Nat.ne_of_gt (issued_iff_serial_lt.mp issued))

theorem Held.not_registered (held : Held h ping events) : ¬ Registered h ping events := by
  induction events with
  | nil => exact absurd held not_since_nil
  | cons e events ih =>
    intro registered
    rcases held_cons.mp held with answers | ⟨-, held⟩
    · rcases registered_cons.mp registered with issues | ⟨alive, -⟩
      · exact answers.2.owned.issued.not_issues issues
      · exact alive answers.ends
    · rcases registered_cons.mp registered with issues | ⟨-, registered⟩
      · exact held.owned.issued.not_issues issues
      · exact ih held registered

/-- A ping that was issued and has ended stays so. -/
theorem not_registered_append (newer : List Event) (issued : Issued h ping events)
    (ended : ¬ Registered h ping events) : ¬ Registered h ping (newer ++ events) := by
  have still : Issued h ping (newer ++ events) ∧ ¬ Registered h ping (newer ++ events) := by
    induction newer with
    | nil => exact ⟨issued, ended⟩
    | cons e newer ih =>
      refine ⟨since_cons.mpr (.inr ⟨trivial, ih.1⟩), fun registered ↦ ?_⟩
      rcases registered_cons.mp registered with issues | ⟨-, registered⟩
      · exact ih.1.not_issues issues
      · exact ih.2 registered
  exact still.2

/-- A ping that is no longer registered is held no longer than until its caller waits for it. -/
theorem not_held_append (newer : List Event) (issued : Issued h ping events)
    (ended : ¬ Registered h ping events) (missing : ¬ Held h ping events) :
    ¬ Held h ping (newer ++ events) := by
  induction newer with
  | nil => exact missing
  | cons e newer ih =>
    intro held
    rcases held_cons.mp held with answers | ⟨-, held⟩
    · exact not_registered_append newer issued ended answers.2
    · exact ih held

/-- After a wait that found it held, a ping is not held again. -/
theorem Held.not_held_of_awaited (held : Held h ping events) (newer : List Event) :
    ¬ Held h ping (newer ++ .edited h (.awaitPing ping) :: events) := by
  have issued : Issued h ping (.edited h (.awaitPing ping) :: events) :=
    since_cons.mpr (.inr ⟨trivial, held.owned.issued⟩)
  have ended : ¬ Registered h ping (.edited h (.awaitPing ping) :: events) :=
    not_registered_append [_] held.owned.issued held.not_registered
  refine not_held_append newer issued ended fun again ↦ ?_
  rcases held_cons.mp again with answers | ⟨harmless, -⟩
  · simp [Answers, Event.settlement?, Edit.settlement?] at answers
  · exact harmless.1 rfl

/-! ### Events about others -/

theorem Event.settlement?_of_foreign (foreign : e.subject? ≠ some h) (id : PingId) :
    e.settlement? h id = none := by
  cases e with
  | fresh | ended | edited => exact if_neg fun same ↦ foreign (congrArg some same)
  | _ => rfl

section

variable {told : List Event} (foreign : ∀ e ∈ told, e.subject? ≠ some h)

include foreign

theorem ne_edited_of_foreign {edit : Edit} (e : Event) (he : e ∈ told) : e ≠ .edited h edit := by
  rintro rfl
  exact foreign _ he rfl

theorem issued_append_of_foreign : issued h (told ++ events) = issued h events := by
  have none : told.count (.edited h .openPing) = 0 :=
    List.count_eq_zero.mpr fun he ↦ foreign _ he rfl
  rw [issued, List.count_append, none, Nat.zero_add]
  rfl

theorem registered_append_of_foreign :
    Registered h ping (told ++ events) ↔ Registered h ping events := by
  refine since_append (fun e he _ issues ↦ foreign e he (issues.1 ▸ rfl)) fun e he ends ↦ ?_
  rcases ends with settles | drops
  · exact settles (Event.settlement?_of_foreign (foreign e he) _)
  · exact ne_edited_of_foreign foreign e he drops

theorem owned_append_of_foreign : Owned h ping (told ++ events) ↔ Owned h ping events :=
  since_append (fun e he _ issues ↦ foreign e he (issues.1 ▸ rfl))
    fun e he ↦ ne_edited_of_foreign foreign e he

theorem held_append_of_foreign : Held h ping (told ++ events) ↔ Held h ping events := by
  refine since_append (fun e he _ answers ↦ ?_)
    fun e he ↦ ⟨ne_edited_of_foreign foreign e he, ne_edited_of_foreign foreign e he⟩
  have silent := Event.settlement?_of_foreign (foreign e he) ping.id
  rw [answers.1] at silent
  cases silent

end

end Supervisor
