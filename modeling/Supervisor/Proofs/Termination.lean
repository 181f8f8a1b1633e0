import Mathlib.Tactic.ByContra
import Supervisor.Proofs.Course.Run
import Supervisor.Script

/-!
# How long a termination lasts

A session that has ceased to be valid is not made valid again, and `terminate` leaves no session
valid. Whether it stays that way until the next reset is another matter: what bars the way back is
`invalidated`, and a session is only invalidated by ceasing to be valid. A session that is
terminated before it was ever valid can still be made valid, and `terminate_lasts_iff` says that
there is no other exception.
-/

set_option autoImplicit false
set_option relaxedAutoImplicit false

namespace Supervisor

/-! ### Flags -/

namespace Proxy

theorem FlagsAgree.refl (p : Proxy) : p.FlagsAgree p :=
  ⟨rfl, rfl, rfl⟩

theorem FlagsAgree.trans {p p' p'' : Proxy} (first : p.FlagsAgree p') (second : p'.FlagsAgree p'') :
    p.FlagsAgree p'' :=
  ⟨second.valid.trans first.valid, second.invalidated.trans first.invalidated,
    second.terminated.trans first.terminated⟩

variable (p : Proxy)

theorem flagsAgree_deliver (id : PingId) : p.FlagsAgree (p.deliver id).2 := by
  unfold deliver
  split
  · exact .refl p
  · exact ⟨rfl, rfl, rfl⟩

theorem flagsAgree_awaitPing (ping : Ping) : p.FlagsAgree (p.awaitPing ping).2 := by
  unfold awaitPing
  split
  · exact ⟨rfl, rfl, rfl⟩
  split
  · exact .refl p
  · exact .refl p

theorem flagsAgree_handle (m : Message) : p.FlagsAgree (p.handle m) := by
  cases m with
  | pingReply id => exact p.flagsAgree_deliver id
  | _ => exact ⟨rfl, rfl, rfl⟩

theorem flagsAgree_route (source : Wire.Source) : p.FlagsAgree (p.route source).2 := by
  rw [route_eq]
  generalize (Wire.Frame.readAll source).1 = frames
  induction frames generalizing p with
  | nil => exact .refl p
  | cons frame frames ih => exact (p.flagsAgree_handle frame.1).trans (ih _)

end Proxy

/-- No edit but `setValid` concerns the flags that `terminate` and `setValid` turn on. -/
theorem Edit.flagsAgree {e : Edit} (other : ∀ value, e ≠ .setValid value) (p : Proxy) :
    p.FlagsAgree (e.apply p).2 := by
  cases e with
  | setValid value => exact absurd rfl (other value)
  | setLabel label text => cases label <;> exact ⟨rfl, rfl, rfl⟩
  | stage kind content => cases kind <;> exact ⟨rfl, rfl, rfl⟩
  | unstage kind => cases kind <;> exact ⟨rfl, rfl, rfl⟩
  | awaitPing ping =>
    simp only [apply, Proxy.awaitCallersPing]
    split
    · exact p.flagsAgree_awaitPing ping
    · exact .refl p
  | dropPing ping =>
    simp only [apply, Proxy.dropCallersPing]
    split
    · exact ⟨rfl, rfl, rfl⟩
    · exact .refl p
  | deliver id => exact p.flagsAgree_deliver id
  | handle m => exact p.flagsAgree_handle m
  | route source => exact p.flagsAgree_route source
  | _ => exact ⟨rfl, rfl, rfl⟩

/-- Whoever was invalidated is not valid. -/
def Session.Coherent (s : Session) : Prop :=
  s.invalidated = true → s.valid = false

/-- Not valid, and never to be valid again before the next reset. -/
structure Session.Barred (s : Session) : Prop where
  valid : s.valid = false
  invalidated : s.invalidated = true

namespace Session

variable {s : Session}

theorem coherent_setValid (coherent : s.Coherent) (value : Bool) : (s.setValid value).Coherent := by
  intro invalidated
  unfold setValid at invalidated ⊢
  cases value with
  | false => rfl
  | true =>
    by_cases before : s.invalidated = true
    · simp only [before, if_true] at invalidated ⊢
      exact coherent before
    · simp [before] at invalidated

theorem Barred.setValid (barred : s.Barred) (value : Bool) : (s.setValid value).Barred := by
  unfold Session.setValid
  cases value with
  | false => exact ⟨rfl, by simp [invalidate, barred.invalidated]⟩
  | true =>
    simp only [barred.invalidated, if_true]
    exact barred

theorem valid_setValid_true (free : s.invalidated = false) : (s.setValid true).valid = true := by
  simp [setValid, free]

end Session

namespace Life

variable {σ : Type} {h : Handle} {base w : World σ}

theorem coherent (life : Life h base w) (coherent : (base.session h).Coherent) :
    (w.session h).Coherent := by
  unfold World.session at *
  induction life with
  | start => exact coherent
  | aside _ alike _ _ ih =>
    intro invalidated
    rw [alike.valid]
    exact ih (alike.invalidated ▸ invalidated)
  | @edit w _ e ih =>
    rw [World.proxy_edit_self]
    by_cases setting : ∃ value, e = .setValid value
    · obtain ⟨value, rfl⟩ := setting
      exact Session.coherent_setValid ih value
    · have agree := Edit.flagsAgree (not_exists.mp setting) (w.proxy h)
      intro invalidated
      rw [agree.valid]
      exact ih (agree.invalidated ▸ invalidated)
  | reset =>
    rw [World.proxy_reset_self]
    exact fun _ ↦ rfl
  | make =>
    rw [World.proxy_note, World.proxy_put_self]
    exact fun _ ↦ rfl
  | terminate =>
    rw [World.proxy_note, World.proxy_modify_self]
    exact fun _ ↦ rfl
  | openPing _ ih =>
    rw [World.proxy_put_self]
    exact ih
  | dropPing _ _ _ ih =>
    rw [World.proxy_modify_self]
    exact ih

/-- A session stays barred until the next reset. -/
theorem barred (life : Life h base w) (barred : (base.session h).Barred)
    (same : w.resets h = base.resets h) : (w.session h).Barred := by
  unfold World.session at *
  induction life with
  | start => exact barred
  | aside _ alike _ silent ih =>
    have before := ih (silent.resets ▸ same)
    exact ⟨alike.valid.trans before.valid, alike.invalidated.trans before.invalidated⟩
  | @edit w _ e ih =>
    have before := ih (World.resets_edit w h h e ▸ same)
    rw [World.proxy_edit_self]
    by_cases setting : ∃ value, e = .setValid value
    · obtain ⟨value, rfl⟩ := setting
      exact before.setValid value
    · have agree := Edit.flagsAgree (not_exists.mp setting) (w.proxy h)
      exact ⟨agree.valid.trans before.valid, agree.invalidated.trans before.invalidated⟩
  | reset life =>
    have earlier := life.resets_le
    rw [World.resets_reset] at same
    omega
  | make life =>
    have earlier := life.resets_le
    rw [World.resets_note, if_pos rfl, World.resets_put] at same
    omega
  | @terminate w _ going ih =>
    have before := ih (World.resets_note _ h (.ended h) ▸ same)
    simp [World.session, before.invalidated] at going
  | openPing _ ih =>
    rw [World.proxy_put_self]
    exact ⟨(ih same).valid, (ih same).invalidated⟩
  | dropPing _ _ _ ih =>
    rw [World.proxy_modify_self]
    exact ⟨(ih same).valid, (ih same).invalidated⟩

end Life

theorem World.Arises.coherent {σ : Type} {control : ProcessControl σ} {w : World σ}
    (arises : w.Arises control) (h : Handle) : (w.session h).Coherent := by
  obtain ⟨origin, ⟨-, -, new⟩, course⟩ := arises
  obtain ⟨settings, createdAt, blank⟩ := new h
  refine (course.life h).coherent ?_
  rw [World.session, blank]
  exact fun _ ↦ rfl

/-! ### Termination -/

namespace World

variable {σ : Type} (control : ProcessControl σ) (h : Handle) (w : World σ)

/-- What termination is to mean: the session takes no work, and neither `setValid` nor another
termination nor a client moved to it changes that. -/
structure Closed : Prop where
  valid : (w.session h).valid = false
  acceptsNewWork : (w.session h).acceptsNewWork = false
  setValid : ((w.edit h (.setValid true)).2.session h).valid = false
  terminate : ((w.terminate control h).2.session h).valid = false
  moveClient : ∀ source target slot, source ≠ target → w.get? target = some h →
    ∃ fault, (w.moveClient source target slot).1 = .error fault

/-- Whatever happens from now on, the session is closed until the next reset. A course leads to
every state of every run, also to those in the middle of an operation, by `Reaches.course`. -/
def Lasts : Prop :=
  ∀ w', Course control w w' → w'.resets h = w.resets h → w'.Closed control h

theorem session_setValid (value : Bool) :
    (w.edit h (.setValid value)).2.session h = (w.session h).setValid value := by
  rw [session, proxy_edit_self]
  rfl

/-- The session after a termination, up to its pings. -/
theorem session_terminate :
    (w.terminate control h).2.session h =
      if ((w.session h).terminated || (w.session h).invalidated) = true then w.session h
      else { { w.session h with terminated := true }.invalidate with pings := [] } := by
  by_cases ended : ((w.session h).terminated || (w.session h).invalidated) = true
  · rw [if_pos ended, terminate_of_ended control h w ended]
  · obtain ⟨_, _, _, _, proxies⟩ :=
      terminate_of_going control h w (eq_false_of_ne_true ended)
    rw [if_neg ended, session, proxies, proxy_modify_self]
    rfl

/-- A session that is not valid takes no client from another one. -/
theorem moveClient_error {source target : SessionId} (slot : Nat) (other : source ≠ target)
    (found : w.get? target = some h) (barred : (w.session h).valid = false) :
    ∃ fault, (w.moveClient source target slot).1 = .error fault := by
  unfold moveClient
  cases w.get? source with
  | none => exact ⟨_, rfl⟩
  | some giver =>
    simp only [if_neg other, found, Session.acceptsNewWork, barred, Bool.false_and, Bool.not_false,
      if_true]
    exact ⟨_, rfl⟩

theorem closed_of_barred (barred : (w.session h).Barred) : w.Closed control h where
  valid := barred.valid
  acceptsNewWork := by simp [Session.acceptsNewWork, barred.valid]
  setValid := by
    rw [session_setValid]
    exact (barred.setValid true).valid
  terminate := by
    rw [session_terminate, if_pos (by simp [barred.invalidated])]
    exact barred.valid
  moveClient _ _ slot other found := moveClient_error h w slot other found barred.valid

/-- `Closed` lasts exactly where the session has been invalidated. -/
theorem lasts_iff : w.Lasts control h ↔ (w.session h).Barred := by
  constructor
  · intro lasts
    have closed := lasts w .start rfl
    refine ⟨closed.valid, ?_⟩
    by_contra free
    have revived := closed.setValid
    rw [session_setValid, Session.valid_setValid_true (eq_false_of_ne_true free)] at revived
    exact Bool.noConfusion revived
  · intro barred w' course same
    exact closed_of_barred control h w' ((course.life h).barred barred same)

/-- After a termination the session stays closed until the next reset if it had been invalidated, or
if it was valid and not terminated yet; and only then. -/
theorem terminate_lasts_iff (arises : w.Arises control) :
    (w.terminate control h).2.Lasts control h ↔
      (w.session h).invalidated = true ∨
        (w.session h).valid = true ∧ (w.session h).terminated = false := by
  have coherent : (w.session h).Coherent := by
    obtain ⟨origin, ⟨-, -, new⟩, course⟩ := arises
    obtain ⟨settings, createdAt, blank⟩ := new h
    refine (course.life h).coherent ?_
    rw [session, blank]
    exact fun _ ↦ rfl
  rw [lasts_iff, session_terminate]
  by_cases invalidated : (w.session h).invalidated = true
  · rw [if_pos (by simp [invalidated])]
    exact ⟨fun _ ↦ .inl invalidated, fun _ ↦ ⟨coherent invalidated, invalidated⟩⟩
  have free := eq_false_of_ne_true invalidated
  by_cases terminated : (w.session h).terminated = true
  · rw [if_pos (by simp [terminated])]
    constructor
    · exact fun barred ↦ .inl barred.invalidated
    · rintro (invalidated | ⟨-, going⟩)
      · exact absurd invalidated (by simp [free])
      · exact absurd going (by simp [terminated])
  · have going := eq_false_of_ne_true terminated
    rw [if_neg (by simp [going, free])]
    constructor
    · intro barred
      have was := barred.invalidated
      simp only [Session.invalidate, free, Bool.false_or] at was
      exact .inr ⟨was, going⟩
    · rintro (invalidated | ⟨valid, -⟩)
      · exact absurd invalidated (by simp [free])
      · exact ⟨rfl, by simp [Session.invalidate, valid]⟩

/-- The termination of a valid session lasts. -/
theorem terminate_lasts_of_valid :
    let w := ((start Settings.standard ({} : Script) ⟨0⟩ Calendar.Timestamp.epoch).edit
      (.standalone 0) (.setValid true)).2
    w.Arises Script.control ∧
      (w.terminate Script.control (.standalone 0)).2.Lasts Script.control (.standalone 0) := by
  intro w
  have arises : w.Arises Script.control :=
    (reachable_start Script.control _ _ _ _).arises.later (.edit .start _ _)
  exact ⟨arises, (terminate_lasts_iff Script.control (.standalone 0) w arises).mpr
    (.inr ⟨by decide, by decide⟩)⟩

/-- A session that is terminated before it was ever valid is made valid afterwards. -/
theorem valid_after_terminate :
    let w := start Settings.standard ({} : Script) ⟨0⟩ Calendar.Timestamp.epoch
    let ended := (w.perform (Script.host Script.control) (.terminate (.standalone 0))).2
    let revived := (ended.perform (Script.host Script.control)
      (.edit (.standalone 0) (.setValid true))).2
    w.Reachable Script.control ∧ Reaches Script.control w ended ∧
      Reaches Script.control ended revived ∧
      revived.resets (.standalone 0) = ended.resets (.standalone 0) ∧
      (revived.session (.standalone 0)).valid = true ∧
      (revived.session (.standalone 0)).acceptsNewWork = true := by
  intro w ended revived
  refine ⟨reachable_start _ _ _ _ _, ?_, ?_, rfl, rfl, rfl⟩
  · exact Reaches.of_perform (Script.host_orderly Script.control) w _
  · exact Reaches.of_perform (Script.host_orderly Script.control) ended _

end World

end Supervisor
