import Supervisor.Proofs.Course.Basic

/-!
# The life of one proxy

Of all that happens in a course only a few changes concern the flags and the pings of one given
proxy. `Life h base w` tells those apart: an edit, a reset, a termination that takes effect, a ping
opened or given up, and everything else, which leaves flags and pings alone. `Course.life` says that
every course is a life of every proxy in it.
-/

set_option autoImplicit false
set_option relaxedAutoImplicit false

namespace Supervisor

/-- The two have the same pings. -/
structure Proxy.PingsAgree (p p' : Proxy) : Prop where
  opened : p'.opened = p.opened
  replies : p'.replies = p.replies
  callers : p'.callers = p.callers
  pings : p'.session.pings = p.session.pings

/-- The two agree on what makes a session valid. -/
structure Proxy.FlagsAgree (p p' : Proxy) : Prop where
  valid : p'.session.valid = p.session.valid
  invalidated : p'.session.invalidated = p.session.invalidated
  terminated : p'.session.terminated = p.session.terminated

structure Proxy.Alike (p p' : Proxy) : Prop extends Proxy.PingsAgree p p', Proxy.FlagsAgree p p'

theorem Proxy.Alike.of_eq {p p' : Proxy} (same : p' = p) : p.Alike p' := by
  subst same
  exact ⟨⟨rfl, rfl, rfl, rfl⟩, ⟨rfl, rfl, rfl⟩⟩

/-- The proxy whose flags or pings the event is a change of. -/
def Event.subject? : Event → Option Handle
  | .fresh h | .edited h _ | .ended h => some h
  | _ => none

/-- Between the worlds no event about the proxy was entered in the journal. -/
def World.Silent {σ : Type} (h : Handle) (w w' : World σ) : Prop :=
  ∃ told, w'.journal = told ++ w.journal ∧ ∀ e ∈ told, e.subject? ≠ some h

theorem World.Silent.of_eq {σ : Type} {h : Handle} {w w' : World σ}
    (same : w'.journal = w.journal) : World.Silent h w w' :=
  ⟨[], same, by simp⟩

theorem World.Silent.of_cons {σ : Type} {h : Handle} {w w' : World σ} {e : Event}
    (cons : w'.journal = e :: w.journal) (foreign : e.subject? ≠ some h) :
    World.Silent h w w' :=
  ⟨[e], cons, by simpa using foreign⟩

/-- What becomes of the proxy `h` on the way from `base`. -/
inductive Life {σ : Type} (h : Handle) (base : World σ) : World σ → Prop
  | start : Life h base base
  | aside {w w' : World σ} (life : Life h base w) (alike : (w.proxy h).Alike (w'.proxy h))
      (slots : w.inUse.length ≤ w'.inUse.length) (silent : w.Silent h w') : Life h base w'
  | edit {w : World σ} (life : Life h base w) (e : Edit) : Life h base (w.edit h e).2
  | reset {w : World σ} (life : Life h base w) : Life h base (w.reset h)
  | make {w : World σ} (life : Life h base w) (missing : ¬ base.Has h) (settings : Settings)
      (createdAt : Calendar.Timestamp) :
      Life h base ((w.put h (Proxy.new settings createdAt)).note (.fresh h))
  | terminate {w : World σ} (life : Life h base w)
      (going : ((w.session h).terminated || (w.session h).invalidated) = false) :
      Life h base ((w.modify h fun p ↦ p.markTerminated.finishTermination).note (.ended h))
  | openPing {w : World σ} (life : Life h base w) : Life h base (w.put h (w.proxy h).openPing.2)
  | dropPing {w : World σ} (life : Life h base w) (ping : Ping)
      (own : base.Has h → (base.proxy h).opened ≤ ping.serial ∧ ping.serial < (w.proxy h).opened) :
      Life h base (w.modify h (Proxy.dropPing ping))

namespace Life

variable {σ : Type} {control : ProcessControl σ} {h k : Handle} {base w w' : World σ}

theorem has (life : Life h base w) (has : base.Has h) : w.Has h := by
  have grown (v v' : World σ) (slots : v.inUse.length ≤ v'.inUse.length) (hv : v.Has h) :
      v'.Has h := by
    cases h with
    | standalone n => trivial
    | pooled slot => exact Nat.lt_of_lt_of_le hv slots
  induction life with
  | start => exact has
  | aside _ _ slots _ ih => exact grown _ _ slots ih
  | edit | reset | make | terminate | openPing | dropPing => exact grown _ _ (Nat.le_refl _) ‹_›

/-- Everything but the proxy itself may change. -/
theorem elsewhere (life : Life h base w) (same : w'.proxy h = w.proxy h)
    (slots : w.inUse.length ≤ w'.inUse.length) (silent : w.Silent h w') : Life h base w' :=
  life.aside (.of_eq same) slots silent

theorem note (life : Life h base w) (e : Event) (foreign : e.subject? ≠ some h) :
    Life h base (w.note e) :=
  life.elsewhere rfl (Nat.le_refl _) (.of_cons rfl foreign)

theorem call {α : Type} (life : Life h base w) (e : Event) (foreign : e.subject? ≠ some h)
    (f : σ → α × σ) : Life h base (w.call e f).2 :=
  life.elsewhere rfl (Nat.le_refl _) (.of_cons rfl foreign)

theorem modify (life : Life h base w) (k : Handle) {f : Proxy → Proxy}
    (alike : (w.proxy k).Alike (f (w.proxy k))) : Life h base (w.modify k f) := by
  by_cases same : h = k
  · subst same
    refine life.aside ?_ (Nat.le_refl _) (.of_eq rfl)
    rw [World.proxy_modify_self]
    exact alike
  · exact life.elsewhere (World.proxy_modify_of_ne w f same) (Nat.le_refl _) (.of_eq rfl)

theorem editAny (life : Life h base w) (k : Handle) (e : Edit) : Life h base (w.edit k e).2 := by
  by_cases same : h = k
  · subst same
    exact life.edit e
  · refine life.elsewhere (World.proxy_put_of_ne w _ same) (Nat.le_refl _) (.of_cons rfl ?_)
    simpa [Event.subject?] using Ne.symm same

theorem resetAny (life : Life h base w) (k : Handle) : Life h base (w.reset k) := by
  by_cases same : h = k
  · subst same
    exact life.reset
  · refine life.elsewhere (World.proxy_modify_of_ne w _ same) (Nat.le_refl _) (.of_cons rfl ?_)
    simpa [Event.subject?] using Ne.symm same

theorem openAny (life : Life h base w) (k : Handle) :
    Life h base (w.put k (w.proxy k).openPing.2) := by
  by_cases same : h = k
  · subst same
    exact life.openPing
  · exact life.elsewhere (World.proxy_put_of_ne w _ same) (Nat.le_refl _) (.of_eq rfl)

theorem dropAny (life : Life h base w) (k : Handle) (ping : Ping)
    (own : base.Has k → (base.proxy k).opened ≤ ping.serial ∧ ping.serial < (w.proxy k).opened) :
    Life h base (w.modify k (Proxy.dropPing ping)) := by
  by_cases same : h = k
  · subst same
    exact life.dropPing ping own
  · exact life.elsewhere (World.proxy_modify_of_ne w _ same) (Nat.le_refl _) (.of_eq rfl)

end Life

namespace World

variable {σ : Type} (control : ProcessControl σ) (h : Handle) (w : World σ)

theorem terminate_of_ended
    (ended : ((w.session h).terminated || (w.session h).invalidated) = true) :
    w.terminate control h = (.error .alreadyTerminated, w) := by
  unfold terminate
  exact if_pos ended

/-- A termination that takes effect, up to the environment and the call that it makes. -/
theorem terminate_of_going
    (going : ((w.session h).terminated || (w.session h).invalidated) = false) :
    ∃ told : List Event, (∀ e ∈ told, e.subject? = none) ∧
      (w.terminate control h).2.journal = told ++ .ended h :: w.journal ∧
      (w.terminate control h).2.inUse = w.inUse ∧
      ∀ k, (w.terminate control h).2.proxy k =
        (w.modify h fun p ↦ p.markTerminated.finishTermination).proxy k := by
  have proxies (v : World σ) (marked : ∀ k, v.proxy k = (w.modify h Proxy.markTerminated).proxy k)
      (k : Handle) : (v.modify h Proxy.finishTermination).proxy k =
        (w.modify h fun p ↦ p.markTerminated.finishTermination).proxy k := by
    by_cases same : k = h
    · subst same
      rw [proxy_modify_self, proxy_modify_self, marked, proxy_modify_self]
    · rw [proxy_modify_of_ne _ _ same, marked, proxy_modify_of_ne _ _ same,
        proxy_modify_of_ne _ _ same]
  unfold terminate
  rw [if_neg (by simpa [World.session] using going)]
  cases hpid : (w.proxy h).session.pid with
  | none => exact ⟨[], by simp, rfl, rfl, proxies _ fun _ ↦ rfl⟩
  | some pid =>
    exact ⟨[.signalled h pid (w.proxy h).settings.terminateSignal], by simp [Event.subject?], rfl,
      rfl, proxies _ fun _ ↦ rfl⟩

end World

namespace Life

variable {σ : Type} {control : ProcessControl σ} {h : Handle} {base w : World σ}

/-- Slots of the pool are marked, and none goes. -/
theorem mark (life : Life h base w) (inUse : List Bool) (slots : w.inUse.length ≤ inUse.length) :
    Life h base { w with inUse := inUse } :=
  life.elsewhere rfl slots (.of_eq rfl)

theorem setId (life : Life h base w) (k : Handle) (id : SessionId) :
    Life h base (w.setId k id) :=
  life.modify k ⟨⟨rfl, rfl, rfl, rfl⟩, ⟨rfl, rfl, rfl⟩⟩

theorem setStaged (life : Life h base w) (k : Handle) (kind : PayloadKind)
    (content : Option Bytes) :
    Life h base (w.modify k (Proxy.modify (Session.setStaged kind content))) := by
  refine life.modify k ?_
  cases kind <;> exact ⟨⟨rfl, rfl, rfl, rfl⟩, ⟨rfl, rfl, rfl⟩⟩

theorem restore (life : Life h base w) (k : Handle) (kind : PayloadKind) (content : Bytes) :
    Life h base (w.restore k kind content) := by
  by_cases empty : ((w.session k).staged kind).isNone
  · have same : w.restore k kind content =
        w.modify k (Proxy.modify (Session.setStaged kind (some content))) :=
      congrArg (w.put k) (congrArg (fun s ↦ { w.proxy k with session := s }) (if_pos empty))
    rw [same]
    exact life.setStaged k kind _
  · have same : w.restore k kind content = w.modify k id :=
      congrArg (w.put k) (congrArg (fun s ↦ { w.proxy k with session := s }) (if_neg empty))
    rw [same]
    exact life.modify k (.of_eq rfl)

theorem acquire (life : Life h base w) : Life h base w.acquire.2 := by
  unfold World.acquire
  dsimp only
  split
  · exact (((life.resetAny _).setId _ _).note (.acquired _) (by simp [Event.subject?])).mark _
      (by simp [World.reset, World.setId])
  split
  · exact life
  -- The new slot is none that `base` knew of.
  by_cases same : h = .pooled w.inUse.length
  · have missing : ¬ base.Has h := by
      intro known
      have found := life.has known
      rw [same] at found
      exact Nat.lt_irrefl _ found
    subst same
    exact (((life.make missing w.settings w.today).setId _ _).note (.acquired _)
      (by simp [Event.subject?])).mark _ (by simp [World.setId])
  · have other : Life h base ((w.put (.pooled w.inUse.length) (Proxy.new w.settings w.today)).note
        (.fresh (.pooled w.inUse.length))) :=
      life.elsewhere (World.proxy_put_of_ne w _ same) (Nat.le_refl _)
        (.of_cons rfl (by simpa [Event.subject?] using Ne.symm same))
    exact ((other.setId _ _).note (.acquired _) (by simp [Event.subject?])).mark _
      (by simp [World.setId])

theorem release (life : Life h base w) (id : SessionId) : Life h base (w.release id).2 := by
  unfold World.release
  split
  · exact life
  · exact ((life.resetAny _).note (.released _) (by simp [Event.subject?])).mark _
      (by simp [World.reset])

theorem moveClient (life : Life h base w) (source target : SessionId) (slot : Nat) :
    Life h base (w.moveClient source target slot).2 := by
  unfold World.moveClient
  split
  · exact life
  split
  · exact life
  split
  · exact life
  split
  · exact life
  split
  · exact life
  · exact (life.modify _ ⟨⟨rfl, rfl, rfl, rfl⟩, ⟨rfl, rfl, rfl⟩⟩).modify _
      ⟨⟨rfl, rfl, rfl, rfl⟩, ⟨rfl, rfl, rfl⟩⟩

theorem terminateAny (life : Life h base w) (k : Handle) :
    Life h base (w.terminate control k).2 := by
  by_cases ended : ((w.session k).terminated || (w.session k).invalidated) = true
  · rw [World.terminate_of_ended control k w ended]
    exact life
  have going := eq_false_of_ne_true ended
  obtain ⟨told, silent, journal, inUse, proxies⟩ := World.terminate_of_going control k w going
  have slots : w.inUse.length ≤ (w.terminate control k).2.inUse.length :=
    Nat.le_of_eq (by rw [inUse])
  by_cases same : h = k
  · subst same
    exact (life.terminate going).elsewhere (proxies h) slots
      ⟨told, journal, fun e he ↦ by simp [silent e he]⟩
  · refine life.elsewhere ?_ slots ⟨told ++ [.ended k], by simp [journal], ?_⟩
    · rw [proxies h, World.proxy_modify_of_ne w _ same]
    · intro e he
      rcases List.mem_append.mp he with he | he
      · simp [silent e he]
      · rw [List.mem_singleton.mp he]
        simpa [Event.subject?] using Ne.symm same

theorem setServer (life : Life h base w) (k : Handle) (pid : Pid) :
    Life h base (w.setServer control k pid) := by
  unfold World.setServer
  exact (((life.call _ (by simp [Event.subject?]) _).call _ (by simp [Event.subject?]) _).modify k
    ⟨⟨rfl, rfl, rfl, rfl⟩, ⟨rfl, rfl, rfl⟩⟩).note _ (by simp [Event.subject?])

theorem changePriority (life : Life h base w) (k : Handle) (delta : Int32) :
    Life h base (w.changePriority control k delta).2 := by
  unfold World.changePriority
  split
  · exact life
  next pid _ =>
    have read := life.call (.priorityRead k pid) (by simp [Event.subject?]) (control.priority pid)
    split
    next heq =>
      rw [heq] at read
      exact read
    next current v heq =>
      rw [heq] at read
      have set := read.call (.prioritySet k pid (addPriority current delta))
        (by simp [Event.subject?]) (control.setPriority pid (addPriority current delta))
      dsimp only
      split
      next heq =>
        rw [heq] at set
        exact set
      next heq =>
        rw [heq] at set
        exact set

theorem setRoundRobin (life : Life h base w) (k : Handle) (on : Bool) :
    Life h base (w.setRoundRobin control k on).2 := by
  unfold World.setRoundRobin
  dsimp only
  split
  · exact life
  next pid _ =>
    generalize (if on = true then _ else _ : Schedule) = target
    have set := life.call (.scheduleSet k pid target) (by simp [Event.subject?])
      (control.setSchedule pid target)
    split
    next heq =>
      rw [heq] at set
      exact set
    next heq =>
      rw [heq] at set
      exact set.modify k ⟨⟨rfl, rfl, rfl, rfl⟩, ⟨rfl, rfl, rfl⟩⟩

end Life

/-! ### Resets in a life -/

theorem World.Silent.resets {σ : Type} {h : Handle} {w w' : World σ} (silent : w.Silent h w') :
    w'.resets h = w.resets h := by
  obtain ⟨told, journal, foreign⟩ := silent
  have none : told.count (.fresh h) = 0 := by
    rw [List.count_eq_zero]
    exact fun told ↦ foreign _ told rfl
  rw [World.resets, journal, List.count_append, none, Nat.zero_add]
  rfl

namespace Life

variable {σ : Type} {h : Handle} {base w : World σ}

theorem resets_le (life : Life h base w) : base.resets h ≤ w.resets h := by
  induction life with
  | start => exact Nat.le_refl _
  | aside _ _ _ silent ih => rwa [silent.resets]
  | edit _ e ih => rwa [World.resets_edit]
  | reset _ ih =>
    rw [World.resets_reset]
    exact Nat.le_succ_of_le ih
  | make _ _ _ _ ih =>
    rw [World.resets_note]
    exact Nat.le_add_right_of_le ih
  | terminate _ _ ih =>
    rw [World.resets_note]
    exact Nat.le_add_right_of_le ih
  | openPing _ ih => exact ih
  | dropPing _ _ _ ih => exact ih

end Life

/-- Every course is a life of every proxy. -/
theorem Course.life {σ : Type} {control : ProcessControl σ} {base w : World σ} (h : Handle)
    (course : Course control base w) : Life h base w := by
  induction course with
  | start => exact .start
  | environment _ _ ih => exact ih.elsewhere rfl (Nat.le_refl _) (.of_eq rfl)
  | elapse _ _ ih => exact ih.elsewhere rfl (Nat.le_refl _) (.of_eq rfl)
  | note _ e passing ih => exact ih.note e (by cases e <;> simp_all [Event.Passing, Event.subject?])
  | edit _ k e ih => exact ih.editAny k e
  | reset _ k ih => exact ih.resetAny k
  | acquire _ ih => exact ih.acquire
  | release _ id ih => exact ih.release id
  | moveClient _ source target slot ih => exact ih.moveClient source target slot
  | terminate _ k ih => exact ih.terminateAny k
  | setServer _ k pid ih => exact ih.setServer k pid
  | changePriority _ k delta ih => exact ih.changePriority k delta
  | setRoundRobin _ k on ih => exact ih.setRoundRobin k on
  | probe _ k pid ih => exact ih.call _ (by simp [Event.subject?]) _
  | take _ k kind ih => exact ih.setStaged k kind none
  | restore _ k kind content ih => exact ih.restore k kind content
  | intend _ k intent ih =>
    exact (ih.modify k ⟨⟨rfl, rfl, rfl, rfl⟩, ⟨rfl, rfl, rfl⟩⟩).note _ (by simp [Event.subject?])
  | setInflate _ k factor ih => exact ih.modify k ⟨⟨rfl, rfl, rfl, rfl⟩, ⟨rfl, rfl, rfl⟩⟩
  | openPing _ k ih => exact ih.openAny k
  | dropPing _ k ping own ih => exact ih.dropAny k ping own

end Supervisor
