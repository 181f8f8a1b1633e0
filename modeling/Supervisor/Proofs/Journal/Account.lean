import Mathlib.Data.List.Basic
import Supervisor.World.Basic

/-!
# What a journal says of a session

The flags of a session, the process of its worker and its request for a shutdown are written by a
few operations, and each of them enters an event. So all of these can be read off the journal:
`Event.tell` is what one event changes about the session of a proxy, and `account` what all of them
come to. Journals are read newest first, as they are kept.

Of a journal only the lifetime counts, the events since the proxy last started as new. In terms of
these, `terminated_account_iff` says when a termination has taken effect, `invalidated_account_iff`
when the session was invalidated otherwise, and `pid_account` and `intent_account` that the newest
process and the newest request are the ones that stand.
-/

set_option autoImplicit false
set_option relaxedAutoImplicit false

namespace Supervisor

structure Account where
  pid : Option Pid := none
  intent : Option ShutdownIntent := none
  valid : Bool := false
  invalidated : Bool := false
  shutdown : Bool := false
  terminated : Bool := false

def Session.account (s : Session) : Account :=
  ⟨s.pid, s.intent, s.valid, s.invalidated, s.shutdown, s.terminated⟩

namespace Account

/-- The session may be terminated: that has not happened, and the session was not invalidated. -/
structure Going (a : Account) : Prop where
  terminated : a.terminated = false
  invalidated : a.invalidated = false

def invalidate (a : Account) : Account :=
  { a with valid := false, invalidated := a.invalidated || a.valid }

def edit (a : Account) : Edit → Account
  | .setValid true => if a.invalidated then a else { a with valid := true }
  | .setValid false => a.invalidate
  | .setShutdown value => { a with shutdown := a.shutdown || value }
  | _ => a

end Account

/-- What the event changes about the session of `h`. -/
def Event.tell (h : Handle) : Event → Account → Account
  | .fresh k, a => if k = h then {} else a
  | .edited k e, a => if k = h then a.edit e else a
  | .requested k intent, a =>
    if k = h then { a with shutdown := true, intent := some intent } else a
  | .ended k, a => if k = h then { a.invalidate with terminated := true } else a
  | .recorded k pid, a => if k = h then { a with pid := some pid } else a
  | _, a => a

def Event.pid? (h : Handle) : Event → Option Pid
  | .recorded k pid => if k = h then some pid else none
  | _ => none

def Event.intent? (h : Handle) : Event → Option ShutdownIntent
  | .requested k intent => if k = h then some intent else none
  | _ => none

/-- The session of `h` as the journal tells it. -/
def account (h : Handle) (events : List Event) : Account :=
  events.foldr (Event.tell h) {}

/-- The events since the proxy last started as new. -/
def lifetime (h : Handle) (events : List Event) : List Event :=
  events.takeWhile (· ≠ .fresh h)

/-- The process recorded last since the proxy started as new. -/
def recordedPid? (h : Handle) (events : List Event) : Option Pid :=
  (lifetime h events).findSome? (Event.pid? h)

/-- The shutdown asked for last since the proxy started as new. -/
def requestedIntent? (h : Handle) (events : List Event) : Option ShutdownIntent :=
  (lifetime h events).findSome? (Event.intent? h)

section

variable {h : Handle} {events : List Event} {e : Event}

theorem account_cons (h : Handle) (e : Event) (events : List Event) :
    account h (e :: events) = e.tell h (account h events) :=
  rfl

theorem account_fresh (h : Handle) (events : List Event) :
    account h (.fresh h :: events) = {} :=
  if_pos rfl

theorem lifetime_fresh (h : Handle) (events : List Event) :
    lifetime h (.fresh h :: events) = [] := by
  simp [lifetime]

theorem lifetime_cons (live : e ≠ .fresh h) (events : List Event) :
    lifetime h (e :: events) = e :: lifetime h events := by
  simp [lifetime, live]

/-- An account is begun anew with every life, so what holds at the start and is kept by each event
of a life holds of all. -/
theorem account_induction {P : Account → List Event → Prop} (start : P {} [])
    (step : ∀ e a life, e ≠ .fresh h → P a life → P (e.tell h a) (e :: life))
    (events : List Event) : P (account h events) (lifetime h events) := by
  induction events with
  | nil => exact start
  | cons e events ih =>
    by_cases live : e = .fresh h
    · subst live
      rw [account_fresh, lifetime_fresh]
      exact start
    · rw [account_cons, lifetime_cons live]
      exact step e _ _ live ih

/-- What an event of a life has to do with the session, if anything. -/
inductive Event.View (h : Handle) : Event → Prop
  | edited (e : Edit) : View h (.edited h e)
  | requested (intent : ShutdownIntent) : View h (.requested h intent)
  | ended : View h (.ended h)
  | recorded (pid : Pid) : View h (.recorded h pid)
  | aside {e : Event} (silent : ∀ a, e.tell h a = a) (pid : e.pid? h = none)
      (intent : e.intent? h = none) (ended : e ≠ .ended h) (edited : ∀ e', e ≠ .edited h e') :
      View h e

theorem Event.view (live : e ≠ .fresh h) : e.View h := by
  cases e with
  | fresh k =>
    have other : k ≠ h := fun same ↦ live (same ▸ rfl)
    exact .aside (fun a ↦ if_neg other) rfl rfl (by simp) (by simp)
  | edited k e =>
    by_cases same : k = h
    · exact same ▸ .edited e
    · exact .aside (fun a ↦ if_neg same) rfl rfl (by simp) (by simp [same])
  | requested k intent =>
    by_cases same : k = h
    · exact same ▸ .requested intent
    · exact .aside (fun a ↦ if_neg same) rfl (if_neg same) (by simp) (by simp)
  | ended k =>
    by_cases same : k = h
    · exact same ▸ .ended
    · exact .aside (fun a ↦ if_neg same) rfl rfl (by simp [same]) (by simp)
  | recorded k pid =>
    by_cases same : k = h
    · exact same ▸ .recorded pid
    · exact .aside (fun a ↦ if_neg same) (if_neg same) rfl (by simp) (by simp)
  | _ => exact .aside (fun a ↦ rfl) rfl rfl (by simp) (by simp)

/-! ### What stands at the end of a journal -/

/-- An edit concerns no more than validity and shutdown. -/
theorem Account.edit_eq (a : Account) (e : Edit) :
    (a.edit e).terminated = a.terminated ∧ (a.edit e).pid = a.pid ∧
      (a.edit e).intent = a.intent := by
  unfold edit
  split
  · split
    · exact ⟨rfl, rfl, rfl⟩
    · exact ⟨rfl, rfl, rfl⟩
  · exact ⟨rfl, rfl, rfl⟩
  · exact ⟨rfl, rfl, rfl⟩
  · exact ⟨rfl, rfl, rfl⟩

theorem terminated_account_iff (h : Handle) (events : List Event) :
    (account h events).terminated = true ↔ .ended h ∈ lifetime h events := by
  refine account_induction (P := fun a life ↦ a.terminated = true ↔ .ended h ∈ life) (by simp) ?_
    events
  intro e a life live ih
  cases Event.view live with
  | edited e => simpa [Event.tell, (a.edit_eq e).1] using ih
  | requested => simpa [Event.tell] using ih
  | ended => simp [Event.tell]
  | recorded => simpa [Event.tell] using ih
  | aside silent _ _ ended _ => simpa [silent, Ne.symm ended] using ih

/-- What each event of a life overwrites or leaves alone stands as the newest of them wrote it. -/
theorem account_eq_findSome? {α : Type} {field : Account → Option α} {told : Event → Option α}
    (start : field {} = none)
    (step : ∀ e a, e ≠ .fresh h → field (e.tell h a) = (told e).or (field a))
    (events : List Event) : field (account h events) = (lifetime h events).findSome? told := by
  refine account_induction (P := fun a life ↦ field a = life.findSome? told) start ?_ events
  intro e a life live ih
  rw [step e a live, List.findSome?_cons, ih]
  cases told e with
  | none => rfl
  | some value => rfl

theorem pid_account (h : Handle) (events : List Event) :
    (account h events).pid = recordedPid? h events := by
  refine account_eq_findSome? rfl (fun e a live ↦ ?_) events
  cases Event.view live with
  | edited e => simp [Event.tell, Event.pid?, (a.edit_eq e).2.1]
  | aside silent pid => simp [silent, pid]
  | _ => simp [Event.tell, Event.pid?, Account.invalidate]

theorem intent_account (h : Handle) (events : List Event) :
    (account h events).intent = requestedIntent? h events := by
  refine account_eq_findSome? rfl (fun e a live ↦ ?_) events
  cases Event.view live with
  | edited e => simp [Event.tell, Event.intent?, (a.edit_eq e).2.2]
  | aside silent _ intent => simp [silent, intent]
  | _ => simp [Event.tell, Event.intent?, Account.invalidate]

/-- Made valid, and later not valid any more. -/
def Withdrawn (h : Handle) (life : List Event) : Prop :=
  List.Sublist [.edited h (.setValid false), .edited h (.setValid true)] life

instance (h : Handle) (life : List Event) : Decidable (Withdrawn h life) :=
  inferInstanceAs (Decidable (List.Sublist _ _))

theorem withdrawn_cons {life : List Event} :
    Withdrawn h (.edited h (.setValid false) :: life) ↔ .edited h (.setValid true) ∈ life := by
  rw [Withdrawn, List.cons_sublist_cons, List.singleton_sublist]

theorem withdrawn_cons_of_ne {life : List Event} (other : e ≠ .edited h (.setValid false)) :
    Withdrawn h (e :: life) ↔ Withdrawn h life := by
  rw [Withdrawn, List.cons_sublist_cons', or_iff_left fun both ↦ other both.1.symm, Withdrawn]

/-- What the flags of a session say of its life, as long as it is not terminated. -/
structure Account.Tells (h : Handle) (a : Account) (life : List Event) : Prop where
  made : a.invalidated = true ∨ a.valid = true ↔ .edited h (.setValid true) ∈ life
  withdrawn : a.invalidated = true ↔ Withdrawn h life

namespace Account.Tells

variable {a a' : Account} {life : List Event}

theorem pass (tells : a.Tells h life) (edited : ∀ value, e ≠ .edited h (.setValid value))
    (valid : a'.valid = a.valid) (invalidated : a'.invalidated = a.invalidated) :
    a'.Tells h (e :: life) where
  made := by
    rw [valid, invalidated, tells.made, List.mem_cons, or_iff_right (edited true).symm]
  withdrawn := by
    rw [invalidated, tells.withdrawn, withdrawn_cons_of_ne (edited false)]

theorem setValid (tells : a.Tells h life) (value : Bool) :
    (a.edit (.setValid value)).Tells h (.edited h (.setValid value) :: life) := by
  cases value with
  | false =>
    refine ⟨?_, ?_⟩
    · simpa [Account.edit, invalidate] using tells.made
    · rw [withdrawn_cons, ← tells.made]
      simp [Account.edit, invalidate]
  | true =>
    have kept : (a.edit (.setValid true)).invalidated = a.invalidated := by
      unfold Account.edit
      dsimp only
      split
      · rfl
      · rfl
    refine ⟨iff_of_true ?_ List.mem_cons_self, ?_⟩
    · by_cases invalidated : a.invalidated = true
      · exact .inl (kept.trans invalidated)
      · exact .inr (by simp [Account.edit, invalidated])
    · rw [kept, tells.withdrawn, withdrawn_cons_of_ne (by simp)]

theorem edit (tells : a.Tells h life) (e : Edit) :
    (a.edit e).Tells h (.edited h e :: life) := by
  cases e with
  | setValid value => exact tells.setValid value
  | _ => exact tells.pass (by simp) rfl rfl

end Account.Tells

/-- As long as no termination has taken effect, a session is invalidated by ceasing to be valid. -/
theorem invalidated_account_iff (going : .ended h ∉ lifetime h events) :
    (account h events).invalidated = true ↔ Withdrawn h (lifetime h events) := by
  have tells : .ended h ∉ lifetime h events → (account h events).Tells h (lifetime h events) := by
    refine account_induction (P := fun a life ↦ .ended h ∉ life → a.Tells h life) ?_ ?_ events
    · exact fun _ ↦ ⟨by simp, by simp [Withdrawn]⟩
    · intro e a life live ih unended
      have before := ih fun earlier ↦ unended (List.mem_cons_of_mem _ earlier)
      cases Event.view live with
      | edited e =>
        rw [Event.tell, if_pos rfl]
        exact before.edit e
      | requested =>
        rw [Event.tell, if_pos rfl]
        exact before.pass (by simp) rfl rfl
      | ended => exact absurd List.mem_cons_self unended
      | recorded =>
        rw [Event.tell, if_pos rfl]
        exact before.pass (by simp) rfl rfl
      | aside silent _ _ _ edited =>
        rw [silent]
        exact before.pass (fun value ↦ edited _) rfl rfl
  exact (tells going).withdrawn

end

end Supervisor
