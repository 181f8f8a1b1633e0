import Mathlib.Logic.Relation
import Supervisor.Proofs.Course.Run

/-!
# What has nothing to do with slots

Slots of sessions change by edits, moves, resets and exchanges with the pool. Whatever else happens
leaves the slots of every session as they are (`World.KeepsSlots`), and of the edits only the four
that are about slots do not. `Course.seatSteps` says that every course goes by such steps.
-/

set_option autoImplicit false
set_option relaxedAutoImplicit false

namespace Supervisor

variable {σ : Type} {control : ProcessControl σ} {u v w w' : World σ} {h k : Handle}

/-- The edit has nothing to do with slots. -/
def Edit.Standing : Edit → Prop
  | .reserveSlot | .attach _ | .detach _ | .detachConnection _ => False
  | _ => True

namespace Proxy

variable (p : Proxy)

theorem clients_deliver (id : PingId) : (p.deliver id).2.session.clients = p.session.clients := by
  unfold deliver
  split
  · rfl
  · rfl

theorem clients_handle (m : Message) : (p.handle m).session.clients = p.session.clients := by
  cases m with
  | pingReply id => exact p.clients_deliver id
  | _ => rfl

theorem clients_route (source : Wire.Source) :
    (p.route source).2.session.clients = p.session.clients := by
  rw [route_eq]
  generalize (Wire.Frame.readAll source).1 = frames
  induction frames generalizing p with
  | nil => rfl
  | cons frame frames ih => exact (ih _).trans (p.clients_handle frame.1)

theorem clients_awaitPing (ping : Ping) :
    (p.awaitPing ping).2.session.clients = p.session.clients := by
  unfold awaitPing
  split
  · rfl
  split
  · rfl
  · rfl

end Proxy

theorem Edit.clients_apply {e : Edit} (standing : e.Standing) (p : Proxy) :
    (e.apply p).2.session.clients = p.session.clients := by
  cases e with
  | reserveSlot | attach | detach | detachConnection => exact standing.elim
  | setLabel label text => cases label <;> rfl
  | setValid value =>
    show (p.session.setValid value).clients = _
    unfold Session.setValid
    split
    · split
      · rfl
      · rfl
    · rfl
  | stage kind content => cases kind <;> rfl
  | unstage kind => cases kind <;> rfl
  | awaitPing ping =>
    simp only [apply, Proxy.awaitCallersPing]
    split
    · exact p.clients_awaitPing ping
    · rfl
  | dropPing ping =>
    simp only [apply, Proxy.dropCallersPing]
    split
    · rfl
    · rfl
  | deliver id => exact p.clients_deliver id
  | handle m => exact p.clients_handle m
  | route source => exact p.clients_route source
  | _ => rfl

namespace World

/-- The session has the slots it had, and has not started as new. -/
structure KeepsSlots (w : World σ) (h : Handle) (w' : World σ) : Prop where
  clients : (w'.session h).clients = (w.session h).clients
  resets : w'.resets h = w.resets h

/-- The session starts as new, without any slots. -/
structure StartsAnew (w : World σ) (h : Handle) (w' : World σ) : Prop where
  clients : (w'.session h).clients = []
  resets : w'.resets h = w.resets h + 1

namespace KeepsSlots

theorem of_eq (proxy : w'.proxy h = w.proxy h) (journal : w'.journal = w.journal) :
    w.KeepsSlots h w' :=
  ⟨congrArg (·.session.clients) proxy, congrArg (List.count (Event.fresh h)) journal⟩

theorem refl (w : World σ) : w.KeepsSlots h w :=
  ⟨rfl, rfl⟩

theorem trans (first : u.KeepsSlots h v) (second : v.KeepsSlots h w) : u.KeepsSlots h w :=
  ⟨second.clients.trans first.clients, second.resets.trans first.resets⟩

theorem note (kept : w.KeepsSlots h v) {e : Event} (other : e ≠ .fresh h) :
    w.KeepsSlots h (v.note e) where
  clients := kept.clients
  resets := by rw [resets_note, if_neg other, Nat.add_zero, kept.resets]

theorem call {α : Type} (kept : w.KeepsSlots h v) {e : Event} (other : e ≠ .fresh h)
    (f : σ → α × σ) : w.KeepsSlots h (v.call e f).2 :=
  (kept.note other).trans (of_eq rfl rfl)

theorem put (k : Handle) {p : Proxy} (clients : p.session.clients = (w.session k).clients) :
    w.KeepsSlots h (w.put k p) := by
  by_cases same : h = k
  · subst same
    refine ⟨?_, rfl⟩
    rw [session, proxy_put_self, clients]
  · exact of_eq (proxy_put_of_ne w p same) rfl

theorem modify (k : Handle) {f : Proxy → Proxy}
    (clients : (f (w.proxy k)).session.clients = (w.session k).clients) :
    w.KeepsSlots h (w.modify k f) :=
  put k clients

theorem edit (k : Handle) {e : Edit} (standing : e.Standing) : w.KeepsSlots h (w.edit k e).2 := by
  have applied : w.KeepsSlots h (w.modify k fun p ↦ (e.apply p).2) :=
    modify k (e.clients_apply standing _)
  exact applied.note nofun

theorem edit_of_ne (e : Edit) (ne : h ≠ k) : w.KeepsSlots h (w.edit k e).2 := by
  have applied : w.KeepsSlots h (w.modify k fun p ↦ (e.apply p).2) :=
    of_eq (proxy_put_of_ne w _ ne) rfl
  exact applied.note nofun

theorem reset_of_ne (ne : h ≠ k) : w.KeepsSlots h (w.reset k) := by
  have cleared : w.KeepsSlots h (w.modify k (Proxy.reset w.today)) :=
    of_eq (proxy_modify_of_ne w _ ne) rfl
  exact cleared.note fun same ↦ ne (Event.fresh.inj same).symm

theorem setId (k : Handle) (id : SessionId) : w.KeepsSlots h (w.setId k id) :=
  modify k rfl

theorem setStaged (k : Handle) (kind : PayloadKind) (content : Option Bytes) :
    w.KeepsSlots h (w.modify k (Proxy.modify (Session.setStaged kind content))) :=
  modify k (by cases kind <;> rfl)

theorem restore (k : Handle) (kind : PayloadKind) (content : Bytes) :
    w.KeepsSlots h (w.restore k kind content) := by
  refine modify k ?_
  show (if _ then Session.setStaged kind (some content) (w.session k) else _).clients = _
  split
  · cases kind <;> rfl
  · rfl

theorem terminate (control : ProcessControl σ) (k : Handle) :
    w.KeepsSlots h (w.terminate control k).2 := by
  by_cases ended : ((w.session k).terminated || (w.session k).invalidated) = true
  · rw [terminate_of_ended control k w ended]
    exact .refl w
  obtain ⟨told, quiet, journal, -, proxies⟩ :=
    terminate_of_going control k w (eq_false_of_ne_true ended)
  have cleared : w.KeepsSlots h (w.modify k fun p ↦ p.markTerminated.finishTermination) :=
    modify k rfl
  refine ⟨(congrArg (·.session.clients) (proxies h)).trans cleared.clients, ?_⟩
  have none : told.count (.fresh h) = 0 :=
    List.count_eq_zero.mpr fun found ↦ nomatch quiet _ found
  rw [World.resets, journal, List.count_append, none, Nat.zero_add]
  exact List.count_cons_of_ne (by simp)

theorem setServer (control : ProcessControl σ) (k : Handle) (pid : Pid) :
    w.KeepsSlots h (w.setServer control k pid) := by
  have asked := ((refl (h := h) w).call (e := .scheduleRead k pid) nofun
    (control.schedule pid)).call (e := .priorityRead k pid) nofun (control.priority pid)
  exact (asked.trans (modify k rfl)).note (e := .recorded k pid) nofun

theorem changePriority (control : ProcessControl σ) (k : Handle) (delta : Int32) :
    w.KeepsSlots h (w.changePriority control k delta).2 := by
  unfold World.changePriority
  split
  · exact .refl w
  next pid _ =>
    have read := (refl (h := h) w).call (e := .priorityRead k pid) nofun (control.priority pid)
    split
    next failed =>
      rw [failed] at read
      exact read
    next current v found =>
      rw [found] at read
      have set := read.call (e := .prioritySet k pid (addPriority current delta)) nofun
        (control.setPriority pid (addPriority current delta))
      dsimp only
      split
      next failed =>
        rw [failed] at set
        exact set
      next done =>
        rw [done] at set
        exact set

theorem setRoundRobin (control : ProcessControl σ) (k : Handle) (on : Bool) :
    w.KeepsSlots h (w.setRoundRobin control k on).2 := by
  unfold World.setRoundRobin
  dsimp only
  split
  · exact .refl w
  next pid _ =>
    generalize (if on = true then _ else _ : Schedule) = target
    have set := (refl (h := h) w).call (e := .scheduleSet k pid target) nofun
      (control.setSchedule pid target)
    split
    next failed =>
      rw [failed] at set
      exact set
    next done =>
      rw [done] at set
      exact set.trans (modify k rfl)

end KeepsSlots

/-! ### Resets -/

theorem startsAnew_reset : w.StartsAnew h (w.reset h) :=
  ⟨congrArg (·.session.clients) (proxy_reset_self w h), resets_reset w h⟩

theorem StartsAnew.trans (anew : u.StartsAnew h v) (kept : v.KeepsSlots h w) : u.StartsAnew h w :=
  ⟨kept.clients.trans anew.clients, kept.resets.trans anew.resets⟩

theorem reuse_cases (w : World σ) (h : Handle) (slot : Nat) :
    h ≠ .pooled slot ∧ w.KeepsSlots h (w.reuse slot) ∨
      h = .pooled slot ∧ w.StartsAnew h (w.reuse slot) := by
  have named : (w.reset (.pooled slot)).KeepsSlots h (w.reuse slot) :=
    ((KeepsSlots.setId (.pooled slot) (Int16.ofNat slot)).note (e := .acquired slot) nofun).trans
      (.of_eq rfl rfl)
  by_cases same : h = .pooled slot
  · subst same
    exact .inr ⟨rfl, startsAnew_reset.trans named⟩
  · exact .inl ⟨same, (KeepsSlots.reset_of_ne same).trans named⟩

theorem grow_cases (w : World σ) (h : Handle) :
    h ≠ .pooled w.inUse.length ∧ w.KeepsSlots h w.grow ∨
      h = .pooled w.inUse.length ∧ w.StartsAnew h w.grow := by
  let slot := w.inUse.length
  let made := w.put (.pooled slot) (Proxy.new w.settings w.today)
  have named : (made.note (.fresh (.pooled slot))).KeepsSlots h w.grow :=
    ((KeepsSlots.setId (.pooled slot) (Int16.ofNat slot)).note (e := .acquired slot) nofun).trans
      (.of_eq rfl rfl)
  by_cases same : h = .pooled slot
  · subst same
    have anew : w.StartsAnew (.pooled slot) (made.note (.fresh (.pooled slot))) :=
      ⟨congrArg (·.session.clients) (proxy_put_self w _ _), by rw [resets_note, if_pos rfl]; rfl⟩
    exact .inr ⟨rfl, anew.trans named⟩
  · have elsewhere : w.KeepsSlots h made := .of_eq (proxy_put_of_ne w _ same) rfl
    exact .inl ⟨same, (elsewhere.note fun fresh ↦ same (Event.fresh.inj fresh).symm).trans named⟩

/-- The proxy that the pool hands out starts as new, and all others keep their slots. -/
theorem acquire_cases (w : World σ) (h : Handle) :
    w.acquire.1 ≠ .ok h ∧ w.KeepsSlots h w.acquire.2 ∨
      w.acquire.1 = .ok h ∧ w.StartsAnew h w.acquire.2 := by
  have named {k : Handle} : (Except.ok k : Except Fault Handle) = .ok h ↔ h = k :=
    ⟨fun same ↦ (Except.ok.inj same).symm, fun same ↦ congrArg Except.ok same.symm⟩
  unfold acquire
  dsimp only
  split
  · rw [Ne, named]
    exact w.reuse_cases h _
  next taken =>
    split
    · exact .inl ⟨nofun, .refl w⟩
    · have last : w.inUse.findIdx (!·) = w.inUse.length :=
        Nat.le_antisymm List.findIdx_le_length (Nat.le_of_not_lt taken)
      rw [Ne, named, last]
      exact w.grow_cases h

/-- The proxy that the pool takes back starts as new, and all others keep their slots. -/
theorem release_cases (w : World σ) (h : Handle) (id : SessionId) :
    w.get? id ≠ some h ∧ w.KeepsSlots h (w.release id).2 ∨
      w.get? id = some h ∧ w.StartsAnew h (w.release id).2 := by
  unfold get? release
  split
  next unknown =>
    rw [unknown]
    exact .inl ⟨nofun, .refl w⟩
  next slot found =>
    have marked : (w.reset (.pooled slot)).KeepsSlots h
        { (w.reset (.pooled slot)).note (.released slot) with
          inUse := w.inUse.set slot false } :=
      ((KeepsSlots.refl _).note (e := .released slot) nofun).trans (.of_eq rfl rfl)
    rw [found, Option.map_some]
    by_cases same : h = .pooled slot
    · subst same
      exact .inr ⟨rfl, startsAnew_reset.trans marked⟩
    · exact .inl ⟨fun held ↦ same (Option.some.inj held).symm,
        (KeepsSlots.reset_of_ne same).trans marked⟩

/-! ### Steps -/

/-- A step of a run: an edit, a move, a reset, an exchange with the pool, or something that has
nothing to do with slots. -/
inductive SeatStep (w : World σ) : World σ → Prop
  | edit (h : Handle) (e : Edit) : SeatStep w (w.edit h e).2
  | moveClient (source target : SessionId) (slot : Nat) :
      SeatStep w (w.moveClient source target slot).2
  | reset (h : Handle) : SeatStep w (w.reset h)
  | acquire : SeatStep w w.acquire.2
  | release (id : SessionId) : SeatStep w (w.release id).2
  | aside {w' : World σ} (kept : ∀ h, w.KeepsSlots h w') : SeatStep w w'

end World

/-- Whatever happens in a course is such a step after the other. -/
theorem Course.seatSteps (course : Course control w v) :
    Relation.ReflTransGen World.SeatStep w v := by
  induction course with
  | start => exact .refl
  | environment _ _ ih => exact ih.tail (.aside fun _ ↦ .of_eq rfl rfl)
  | elapse _ _ ih => exact ih.tail (.aside fun _ ↦ .of_eq rfl rfl)
  | @note u _ e passing ih =>
    have other (h : Handle) : e ≠ .fresh h := by
      rintro rfl
      exact passing
    exact ih.tail (.aside fun h ↦ (World.KeepsSlots.refl u).note (other h))
  | edit _ k e ih => exact ih.tail (.edit k e)
  | reset _ k ih => exact ih.tail (.reset k)
  | acquire _ ih => exact ih.tail .acquire
  | release _ id ih => exact ih.tail (.release id)
  | moveClient _ source target slot ih => exact ih.tail (.moveClient source target slot)
  | terminate _ k ih => exact ih.tail (.aside fun _ ↦ .terminate control k)
  | setServer _ k pid ih => exact ih.tail (.aside fun _ ↦ .setServer control k pid)
  | changePriority _ k delta ih => exact ih.tail (.aside fun _ ↦ .changePriority control k delta)
  | setRoundRobin _ k on ih => exact ih.tail (.aside fun _ ↦ .setRoundRobin control k on)
  | probe _ k pid ih =>
    refine ih.tail (.aside fun h ↦ ?_)
    exact .call (e := .probed k pid) (.refl _) nofun (control.alive pid)
  | take _ k kind ih => exact ih.tail (.aside fun _ ↦ .setStaged k kind none)
  | restore _ k kind content ih => exact ih.tail (.aside fun _ ↦ .restore k kind content)
  | intend _ k intent ih =>
    refine ih.tail (.aside fun h ↦ ?_)
    exact .note (e := .requested k intent) (.modify k rfl) nofun
  | setInflate _ k _ ih => exact ih.tail (.aside fun _ ↦ .modify k rfl)
  | openPing _ k ih => exact ih.tail (.aside fun _ ↦ .put k rfl)
  | dropPing _ k _ _ ih => exact ih.tail (.aside fun _ ↦ .modify k rfl)

end Supervisor
