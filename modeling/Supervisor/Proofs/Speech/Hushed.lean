import Supervisor.Proofs.Flight.Basic

/-!
# Without a word to a worker

`World.Hushed` says that on the way from one world to another no link was handed a frame. Every
operation that has no frame under way is hushed (`World.Hushed.perform`), except for a sweep, which
has one after the other. The others are so until they come to their frame
(`World.Hushed.prepared`) and after the link has given it back (`World.Hushed.land`).
-/

set_option autoImplicit false
set_option relaxedAutoImplicit false

namespace Supervisor

variable {σ : Type}

/-- The frame that the event is about. -/
def Event.frame? : Event → Option Dispatch
  | .offered d | .accepted d => some d
  | _ => none

namespace World

/-- On the way no link was handed a frame. -/
def Hushed (w w' : World σ) : Prop :=
  ∃ news, w'.journal = news ++ w.journal ∧ ∀ e ∈ news, e.frame? = none

namespace Hushed

variable {control : ProcessControl σ} {host : Host σ} {u v w : World σ}

theorem of_eq (journal : v.journal = w.journal) : w.Hushed v :=
  ⟨[], journal, by simp⟩

theorem refl (w : World σ) : w.Hushed w :=
  of_eq rfl

theorem trans (first : u.Hushed v) (second : v.Hushed w) : u.Hushed w := by
  obtain ⟨early, before, wordless⟩ := first
  obtain ⟨late, after, wordless'⟩ := second
  refine ⟨late ++ early, by rw [after, before, List.append_assoc], fun e told ↦ ?_⟩
  exact (List.mem_append.mp told).elim (wordless' e) (wordless e)

theorem note {e : Event} (wordless : e.frame? = none) (w : World σ) : w.Hushed (w.note e) :=
  ⟨[e], rfl, by simpa using wordless⟩

theorem call {α : Type} {e : Event} (wordless : e.frame? = none) (f : σ → α × σ) (w : World σ) :
    w.Hushed (w.call e f).2 :=
  ⟨[e], rfl, by simpa using wordless⟩

/-! ### Changes to one proxy -/

theorem edit (h : Handle) (e : Edit) (w : World σ) : w.Hushed (w.edit h e).2 :=
  note rfl _

theorem reset (h : Handle) (w : World σ) : w.Hushed (w.reset h) :=
  note rfl _

theorem terminate (control : ProcessControl σ) (h : Handle) (w : World σ) :
    w.Hushed (w.terminate control h).2 := by
  unfold World.terminate
  dsimp only
  split
  · exact refl w
  have marked : w.Hushed ((w.modify h Proxy.markTerminated).note (.ended h)) := note rfl _
  cases (w.proxy h).session.pid with
  | none => exact marked
  | some pid =>
    exact marked.trans (call rfl (control.signal pid (w.proxy h).settings.terminateSignal) _)

theorem setServer (h : Handle) (pid : Pid) (w : World σ) :
    w.Hushed (w.setServer control h pid) :=
  ((call rfl (control.schedule pid) w).trans (call rfl (control.priority pid) _)).trans
    (note rfl _)

theorem changePriority (h : Handle) (delta : Int32) (w : World σ) :
    w.Hushed (w.changePriority control h delta).2 := by
  unfold World.changePriority
  split
  · exact refl w
  next pid _ =>
    have read : w.Hushed (w.call (.priorityRead h pid) (control.priority pid)).2 :=
      call rfl _ w
    split
    next failed =>
      rw [failed] at read
      exact read
    next current v found =>
      rw [found] at read
      have set : w.Hushed (v.call (.prioritySet h pid (addPriority current delta))
          (control.setPriority pid (addPriority current delta))).2 :=
        read.trans (call rfl _ v)
      dsimp only
      split
      next failed =>
        rw [failed] at set
        exact set
      next done =>
        rw [done] at set
        exact set

theorem setRoundRobin (h : Handle) (on : Bool) (w : World σ) :
    w.Hushed (w.setRoundRobin control h on).2 := by
  unfold World.setRoundRobin
  dsimp only
  split
  · exact refl w
  next pid _ =>
    generalize (if on = true then _ else _ : Schedule) = target
    have set : w.Hushed (w.call (.scheduleSet h pid target) (control.setSchedule pid target)).2 :=
      call rfl _ w
    split
    next failed =>
      rw [failed] at set
      exact set
    next done =>
      rw [done] at set
      exact set

/-! ### The pool -/

theorem acquire (w : World σ) : w.Hushed w.acquire.2 := by
  unfold World.acquire
  dsimp only
  split
  · exact (reset _ w).trans (note (e := .acquired _) rfl _)
  split
  · exact refl w
  · exact (note (e := .fresh (.pooled w.inUse.length)) rfl _).trans
      (note (e := .acquired _) rfl _)

theorem release (id : SessionId) (w : World σ) : w.Hushed (w.release id).2 := by
  unfold World.release
  split
  · exact refl w
  · exact (reset _ w).trans (note (e := .released _) rfl _)

theorem moveClient (source target : SessionId) (slot : Nat) (w : World σ) :
    w.Hushed (w.moveClient source target slot).2 := by
  unfold World.moveClient
  split
  · exact refl w
  split
  · exact refl w
  split
  · exact refl w
  split
  · exact refl w
  split
  · exact refl w
  · exact of_eq rfl

theorem terminateAll (hs : List Handle) (w : World σ) :
    w.Hushed (w.terminateAll control hs).2 := by
  induction hs generalizing w with
  | nil => exact refl w
  | cons h hs ih => exact (terminate control h w).trans (ih _)

theorem runDue (now : Instant) (w : World σ) : w.Hushed (w.runDue control now).2 := by
  unfold World.runDue
  split
  · exact refl w
  · exact terminateAll _ w

/-! ### Sending -/

theorem takeStaged (h : Handle) (kind : PayloadKind) (w : World σ) :
    w.Hushed (w.takeStaged h kind) := by
  unfold World.takeStaged
  split
  · exact refl w
  · exact of_eq rfl

theorem intend (h : Handle) (delay : Duration) (enable : Bool) (w : World σ) :
    w.Hushed (w.intend h delay enable) :=
  note rfl _

/-- What an operation does before it comes to its frame. -/
theorem prepared (op : Operation) (w : World σ) : w.Hushed (w.prepared op) := by
  cases op with
  | sendStaged h kind => exact takeStaged h kind w
  | requestShutdown h delay enable => exact intend h delay enable w
  | setInflate h factor sendOver => exact of_eq rfl
  | verifyAlive h timeout => exact of_eq rfl
  | _ => exact refl w

/-- What it does after the link has given the frame back. -/
theorem land (op : Operation) (w : World σ) (sent : Except IoFault Unit) (v : World σ) :
    v.Hushed (w.land op sent v) := by
  cases op with
  | sendStaged h kind =>
    unfold World.land
    dsimp only
    split
    · split
      · exact refl v
      · exact of_eq rfl
    · exact refl v
  | verifyAlive h timeout => exact of_eq rfl
  | _ => exact refl v

theorem send {h : Handle} {channel : Channel} {m : Message}
    (missing : w.offer? h channel m = none) : w.Hushed (w.send host h channel m).2 := by
  obtain ⟨fault, failed⟩ := send_of_no_offer host missing
  rw [failed]
  exact refl w

theorem sendStaged {h : Handle} {kind : PayloadKind}
    (silent : w.flight? (.sendStaged h kind) = none) :
    w.Hushed (w.sendStaged host h kind).2 := by
  unfold flight? World.takeStaged at silent
  unfold World.sendStaged
  dsimp only at silent ⊢
  cases staged : (w.session h).staged kind with
  | none => exact refl w
  | some content =>
    rw [staged, Option.bind_some] at silent
    obtain ⟨fault, failed⟩ := send_of_no_offer host silent
    dsimp only
    rw [failed]
    dsimp only
    split
    · exact refl w
    · exact of_eq rfl

theorem requestShutdown {h : Handle} {delay : Duration} {enable : Bool}
    (silent : w.flight? (.requestShutdown h delay enable) = none) :
    w.Hushed (w.requestShutdown host h delay enable).2 := by
  have intended := intend h delay enable w
  unfold World.requestShutdown
  dsimp only
  split
  · exact intended
  · exact intended.trans (send silent)

theorem setInflate {h : Handle} {factor : Int32} {sendOver : Bool}
    (silent : w.flight? (.setInflate h factor sendOver) = none) :
    w.Hushed (w.setInflate host h factor sendOver).2 := by
  have kept : w.Hushed (w.inflate h factor) := of_eq rfl
  unfold flight? at silent
  unfold World.setInflate
  dsimp only at silent ⊢
  cases sendOver with
  | false => exact kept
  | true => exact kept.trans (send silent)

theorem verifyAlive {h : Handle} {timeout : Duration}
    (silent : w.flight? (.verifyAlive h timeout) = none) :
    w.Hushed (w.verifyAlive host h timeout).2 := by
  rcases barred_or_noLink_or_pings h w with barred | ⟨valid, going, noLink⟩ | ⟨link, pings⟩
  · rw [verifyAlive_of_invalid host w h timeout barred]
    exact refl w
  · rw [verifyAlive_of_noLink host w h timeout valid going noLink]
    exact refl w
  · simp [flight?, pings.link, pings.valid, pings.going] at silent

/-- An operation that has no frame under way does not come to a word with a worker. -/
theorem perform {op : Operation} (silent : w.flight? op = none) (single : op ≠ .sweep) :
    w.Hushed (w.perform host op).2 := by
  cases op with
  | edit h e => exact edit h e w
  | reset h => exact reset h w
  | terminate h => exact terminate _ h w
  | setServer h pid => exact setServer h pid w
  | changePriority h delta => exact changePriority h delta w
  | setRoundRobin h on => exact setRoundRobin h on w
  | send h m => exact send silent
  | sendStaged h kind => exact sendStaged silent
  | requestShutdown h delay enable => exact requestShutdown silent
  | setInflate h factor sendOver => exact setInflate silent
  | verifyAlive h timeout => exact verifyAlive silent
  | acquire => exact acquire w
  | release id => exact release id w
  | moveClient source target slot => exact moveClient source target slot w
  | sweep => exact absurd rfl single
  | runDue now => exact runDue now w
  | elapse span => exact of_eq rfl

end Hushed

end World

end Supervisor
