import Mathlib.Logic.Relation
import Supervisor.Proofs.Course.Run
import Supervisor.Proofs.Journal.Account

/-!
# Turn by turn

Each change in a course enters in the journal what it does. `World.Turn` says what that means: the
events are of one of a few kinds, each under its condition (`World.Enters`), and sessions and pool
are afterwards what these events make of them. `Course.turns` says that a course goes from turn to
turn, so what one turn preserves is preserved by every run.
-/

set_option autoImplicit false
set_option relaxedAutoImplicit false

namespace Supervisor

/-- What the event changes about the slots of the pool. -/
def Event.mark : Event → List Bool → List Bool
  | .acquired slot, inUse => if slot < inUse.length then inUse.set slot true else inUse ++ [true]
  | .released slot, inUse => inUse.set slot false
  | _, inUse => inUse

/-- The event is neither about a termination nor about the pool. -/
def Event.Plain : Event → Prop
  | .ended _ | .signalled _ _ _ | .acquired _ | .released _ => False
  | _ => True

variable {σ : Type}

namespace World

/-- What one change enters in the journal, and under which condition. -/
inductive Enters (w : World σ) : List Event → Prop
  | nothing : w.Enters []
  | plain {e : Event} (plain : e.Plain) : w.Enters [e]
  | ended {h : Handle} (going : (w.session h).account.Going)
      (missing : (w.session h).pid = none) : w.Enters [.ended h]
  | signalled {h : Handle} {pid : Pid} (going : (w.session h).account.Going)
      (recorded : (w.session h).pid = some pid) :
      w.Enters [.signalled h pid (w.proxy h).settings.terminateSignal, .ended h]
  | acquired {slot : Nat} (first : slot = w.inUse.findIdx (!·))
      (room : slot < w.inUse.length ∨ slot < w.capacity) :
      w.Enters [.acquired slot, .fresh (.pooled slot)]
  | released {slot : Nat} (taken : w.inUse[slot]? = some true) :
      w.Enters [.released slot, .fresh (.pooled slot)]

structure Turn (w w' : World σ) (told : List Event) : Prop where
  enters : w.Enters told
  journal : w'.journal = told ++ w.journal
  accounts : ∀ h, (w'.session h).account = told.foldr (Event.tell h) (w.session h).account
  inUse : w'.inUse = told.foldr Event.mark w.inUse
  pool : w'.settings = w.settings
  settings : ∀ h, w.Has h → (w'.proxy h).settings = (w.proxy h).settings

/-- One turn after the other leads from world to world. -/
def Turns : World σ → World σ → Prop :=
  Relation.ReflTransGen fun w w' ↦ ∃ told, w.Turn w' told

end World

/-! ### Proxies -/

/-- The journal need not say anything of the change. -/
structure Proxy.Even (p p' : Proxy) : Prop where
  account : p'.session.account = p.session.account
  settings : p'.settings = p.settings

namespace Proxy

variable {p p' p'' : Proxy}

theorem Even.refl (p : Proxy) : p.Even p :=
  ⟨rfl, rfl⟩

theorem Even.trans (first : p.Even p') (second : p'.Even p'') : p.Even p'' :=
  ⟨second.account.trans first.account, second.settings.trans first.settings⟩

variable (p)

theorem even_deliver (id : PingId) : p.Even (p.deliver id).2 := by
  unfold deliver
  split
  · exact .refl p
  · exact ⟨rfl, rfl⟩

theorem even_awaitPing (ping : Ping) : p.Even (p.awaitPing ping).2 := by
  unfold awaitPing
  split
  · exact ⟨rfl, rfl⟩
  split
  · exact .refl p
  · exact .refl p

theorem even_handle (m : Message) : p.Even (p.handle m) := by
  cases m with
  | pingReply id => exact p.even_deliver id
  | _ => exact ⟨rfl, rfl⟩

theorem even_route (source : Wire.Source) : p.Even (p.route source).2 := by
  rw [route_eq]
  generalize (Wire.Frame.readAll source).1 = frames
  induction frames generalizing p with
  | nil => exact .refl p
  | cons frame frames ih => exact (p.even_handle frame.1).trans (ih _)

end Proxy

theorem Session.account_setStaged (s : Session) (kind : PayloadKind) (content : Option Bytes) :
    (s.setStaged kind content).account = s.account := by
  cases kind <;> rfl

theorem Session.account_setValid (s : Session) (value : Bool) :
    (s.setValid value).account = s.account.edit (.setValid value) := by
  cases value with
  | false => rfl
  | true =>
    unfold setValid Account.edit
    by_cases invalidated : s.invalidated = true
    · simp [invalidated, account]
    · simp [invalidated, account]

namespace Edit

theorem settings_apply (e : Edit) (p : Proxy) : (e.apply p).2.settings = p.settings := by
  cases e with
  | awaitPing ping =>
    simp only [apply, Proxy.awaitCallersPing]
    split
    · exact (p.even_awaitPing ping).settings
    · rfl
  | dropPing ping =>
    simp only [apply, Proxy.dropCallersPing]
    split
    · rfl
    · rfl
  | deliver id => exact (p.even_deliver id).settings
  | handle m => exact (p.even_handle m).settings
  | route source => exact (p.even_route source).settings
  | _ => rfl

theorem account_apply (e : Edit) (p : Proxy) :
    (e.apply p).2.session.account = p.session.account.edit e := by
  cases e with
  | setValid value => exact p.session.account_setValid value
  | setLabel label text => cases label <;> rfl
  | stage kind content => exact p.session.account_setStaged kind _
  | unstage kind => exact p.session.account_setStaged kind none
  | awaitPing ping =>
    simp only [apply, Proxy.awaitCallersPing]
    split
    · exact (p.even_awaitPing ping).account
    · rfl
  | dropPing ping =>
    simp only [apply, Proxy.dropCallersPing]
    split
    · rfl
    · rfl
  | deliver id => exact (p.even_deliver id).account
  | handle m => exact (p.even_handle m).account
  | route source => exact (p.even_route source).account
  | _ => rfl

end Edit

/-! ### Turns -/

namespace World

variable {control : ProcessControl σ} {w w' : World σ} {told : List Event}

/-- A change to one proxy. -/
theorem Turn.of_proxy (k : Handle) (enters : w.Enters told)
    (journal : w'.journal = told ++ w.journal) (inUse : w'.inUse = told.foldr Event.mark w.inUse)
    (pool : w'.settings = w.settings) (elsewhere : ∀ h, h ≠ k → w'.proxy h = w.proxy h)
    (account : (w'.session k).account = told.foldr (Event.tell k) (w.session k).account)
    (foreign : ∀ h, h ≠ k → ∀ a, told.foldr (Event.tell h) a = a)
    (settings : w.Has k → (w'.proxy k).settings = (w.proxy k).settings) : w.Turn w' told where
  enters := enters
  journal := journal
  accounts h := by
    by_cases same : h = k
    · exact same ▸ account
    · rw [foreign h same, session, elsewhere h same, session]
  inUse := inUse
  pool := pool
  settings h known := by
    by_cases same : h = k
    · subst same
      exact settings known
    · rw [elsewhere h same]

/-- Nothing is changed that the journal speaks of. -/
theorem Turn.idle (registry : w'.registry = w.registry) (inUse : w'.inUse = w.inUse)
    (journal : w'.journal = w.journal) : w.Turn w' [] where
  enters := .nothing
  journal := journal
  accounts h := by rw [session, proxy, registry]; rfl
  inUse := inUse
  pool := by rw [World.settings, registry]; rfl
  settings h _ := by rw [proxy, registry]; rfl

theorem Turn.modify (w : World σ) (k : Handle) {f : Proxy → Proxy}
    (even : (w.proxy k).Even (f (w.proxy k))) : w.Turn (w.modify k f) [] := by
  refine .of_proxy k .nothing rfl rfl rfl (fun h other ↦ proxy_modify_of_ne w f other) ?_
    (fun _ _ _ ↦ rfl) fun _ ↦ ?_
  · rw [session, proxy_modify_self]
    exact even.account
  · rw [proxy_modify_self]
    exact even.settings

/-- A change to one proxy and the event that says so. -/
theorem Turn.modify_note (w : World σ) (k : Handle) {f : Proxy → Proxy} {e : Event}
    (plain : e.Plain) (account : (f (w.proxy k)).session.account = e.tell k (w.session k).account)
    (foreign : ∀ h, h ≠ k → ∀ a, e.tell h a = a)
    (settings : (f (w.proxy k)).settings = (w.proxy k).settings) :
    w.Turn ((w.modify k f).note e) [e] := by
  have unmarked (inUse : List Bool) : e.mark inUse = inUse := by
    cases e with
    | acquired | released => exact plain.elim
    | _ => rfl
  refine .of_proxy k (.plain plain) rfl (unmarked _).symm rfl
    (fun h other ↦ proxy_modify_of_ne w f other) ?_ foreign fun _ ↦ ?_
  · rw [session, proxy_note, proxy_modify_self]
    exact account
  · rw [proxy_note, proxy_modify_self]
    exact settings

theorem Turn.call {α : Type} (w : World σ) {e : Event} (plain : e.Plain)
    (silent : ∀ h a, e.tell h a = a) (f : σ → α × σ) : w.Turn (w.call e f).2 [e] where
  enters := .plain plain
  journal := rfl
  accounts h := (silent h _).symm
  inUse := by
    cases e with
    | acquired | released => exact plain.elim
    | _ => rfl
  pool := rfl
  settings _ _ := rfl

/-! ### Every change is a turn -/

section

variable (control : ProcessControl σ) (w : World σ) {h : Handle}

theorem ended_eq_false (going : (w.session h).account.Going) :
    ¬ (((w.proxy h).session.terminated || (w.proxy h).session.invalidated) = true) := by
  have terminated : (w.proxy h).session.terminated = false := going.terminated
  have invalidated : (w.proxy h).session.invalidated = false := going.invalidated
  simp [terminated, invalidated]

theorem terminate_of_missing (going : (w.session h).account.Going)
    (missing : (w.session h).pid = none) :
    w.terminate control h = (.error .noSuchProcess,
      ((w.modify h Proxy.markTerminated).note (.ended h)).modify h Proxy.finishTermination) := by
  unfold terminate
  rw [if_neg (w.ended_eq_false going)]
  rw [session] at missing
  simp only [missing]

theorem terminate_of_recorded {pid : Pid} (going : (w.session h).account.Going)
    (recorded : (w.session h).pid = some pid) :
    w.terminate control h =
      let sig := (w.proxy h).settings.terminateSignal
      let called := ((w.modify h Proxy.markTerminated).note (.ended h)).call (.signalled h pid sig)
        (control.signal pid sig)
      (called.1, called.2.modify h Proxy.finishTermination) := by
  unfold terminate
  rw [if_neg (w.ended_eq_false going)]
  rw [session] at recorded
  simp only [recorded]

theorem turn_terminate (h : Handle) : ∃ told, w.Turn (w.terminate control h).2 told := by
  by_cases going : (w.session h).account.Going
  · have marked (k : Handle) (other : k ≠ h) (f g : Proxy → Proxy) (e : Event) :
        (((w.modify h f).note e).modify h g).proxy k = w.proxy k := by
      rw [proxy_modify_of_ne _ _ other, proxy_note, proxy_modify_of_ne _ _ other]
    have account : ((((w.modify h Proxy.markTerminated).note (.ended h)).modify h
        Proxy.finishTermination).session h).account =
          (Event.ended h).tell h (w.session h).account := by
      rw [session, proxy_modify_self, proxy_note, proxy_modify_self, Event.tell, if_pos rfl]
      rfl
    have settings : (((w.modify h Proxy.markTerminated).note (.ended h)).modify h
        Proxy.finishTermination |>.proxy h).settings = (w.proxy h).settings := by
      rw [proxy_modify_self, proxy_note, proxy_modify_self]
      rfl
    cases found : (w.session h).pid with
    | none =>
      rw [terminate_of_missing control w going found]
      exact ⟨_, .of_proxy h (.ended going found) rfl rfl rfl (fun k other ↦ marked k other _ _ _)
        account (fun k other a ↦ if_neg other.symm) fun _ ↦ settings⟩
    | some pid =>
      rw [terminate_of_recorded control w going found]
      exact ⟨_, .of_proxy h (.signalled going found) rfl rfl rfl
        (fun k other ↦ marked k other _ _ (.ended h)) account (fun k other a ↦ if_neg other.symm)
        fun _ ↦ settings⟩
  · have ended : ((w.session h).terminated || (w.session h).invalidated) = true := by
      by_contra free
      rw [Bool.or_eq_true, not_or] at free
      exact going ⟨eq_false_of_ne_true free.1, eq_false_of_ne_true free.2⟩
    rw [terminate_of_ended control h w ended]
    exact ⟨[], .idle rfl rfl rfl⟩

/-- The proxy of a slot starts as new. -/
theorem Turn.of_slot {slot : Nat} {e : Event} (enters : w.Enters [e, .fresh (.pooled slot)])
    (silent : ∀ h a, e.tell h a = a)
    (journal : w'.journal = e :: .fresh (.pooled slot) :: w.journal)
    (inUse : w'.inUse = e.mark w.inUse) (pool : w'.settings = w.settings)
    (elsewhere : ∀ k, k ≠ .pooled slot → w'.proxy k = w.proxy k)
    (new : (w'.session (.pooled slot)).account = {})
    (settings : w.Has (.pooled slot) →
      (w'.proxy (.pooled slot)).settings = (w.proxy (.pooled slot)).settings) :
    w.Turn w' [e, .fresh (.pooled slot)] := by
  refine .of_proxy (.pooled slot) enters journal inUse pool elsewhere ?_ ?_ settings
  · rw [new, List.foldr_cons, silent, List.foldr_cons, Event.tell, if_pos rfl]
  · intro k other a
    rw [List.foldr_cons, silent, List.foldr_cons, Event.tell, if_neg other.symm, List.foldr_nil]

theorem proxy_reuse_self (slot : Nat) : (w.reuse slot).proxy (.pooled slot) =
    ((w.proxy (.pooled slot)).reset w.today).modify fun s ↦ { s with id := Int16.ofNat slot } := by
  show ((w.reset (.pooled slot)).modify (.pooled slot) _).proxy (.pooled slot) = _
  rw [proxy_modify_self, proxy_reset_self]

theorem proxy_grow_self : w.grow.proxy (.pooled w.inUse.length) =
    (Proxy.new w.settings w.today).modify fun s ↦ { s with id := Int16.ofNat w.inUse.length } := by
  show (World.modify _ (.pooled w.inUse.length) _).proxy (.pooled w.inUse.length) = _
  rw [proxy_modify_self, proxy_note, proxy_put_self]

theorem turn_reuse {slot : Nat} (first : slot = w.inUse.findIdx (!·))
    (below : slot < w.inUse.length) :
    w.Turn (w.reuse slot) [.acquired slot, .fresh (.pooled slot)] := by
  refine .of_slot w (.acquired first (.inl below)) (fun _ _ ↦ rfl) rfl (if_pos below).symm rfl
    ?_ ?_ ?_
  · exact fun k other ↦ (proxy_modify_of_ne _ _ other).trans (proxy_modify_of_ne w _ other)
  · rw [session, proxy_reuse_self]
    rfl
  · rw [proxy_reuse_self]
    exact fun _ ↦ rfl

theorem turn_grow (first : w.inUse.length = w.inUse.findIdx (!·))
    (room : w.inUse.length < w.capacity) :
    w.Turn w.grow [.acquired w.inUse.length, .fresh (.pooled w.inUse.length)] := by
  refine .of_slot w (.acquired first (.inr room)) (fun _ _ ↦ rfl) rfl
    (if_neg (Nat.lt_irrefl _)).symm rfl ?_ ?_ ?_
  · exact fun k other ↦ (proxy_modify_of_ne _ _ other).trans (proxy_put_of_ne w _ other)
  · rw [session, proxy_grow_self]
    rfl
  · exact fun known ↦ absurd known (Nat.lt_irrefl _)

theorem turn_acquire : ∃ told, w.Turn w.acquire.2 told := by
  unfold acquire
  dsimp only
  split
  next below => exact ⟨_, turn_reuse w rfl below⟩
  next full =>
    have first : w.inUse.length = w.inUse.findIdx (!·) :=
      Nat.le_antisymm (Nat.le_of_not_lt full) List.findIdx_le_length
    split
    · exact ⟨[], .idle rfl rfl rfl⟩
    next room => exact ⟨_, turn_grow w first (Nat.lt_of_not_le room)⟩

theorem turn_release (id : SessionId) : ∃ told, w.Turn (w.release id).2 told := by
  unfold release
  split
  · exact ⟨[], .idle rfl rfl rfl⟩
  next slot found =>
    have taken : w.inUse[slot]? = some true := by
      unfold slotOf? at found
      split at found
      next held => exact Option.some.inj found ▸ held.2
      · cases found
    refine ⟨_, .of_slot w (.released taken) (fun _ _ ↦ rfl) rfl rfl rfl ?_ ?_ ?_⟩
    · exact fun k other ↦ proxy_modify_of_ne w _ other
    · show ((w.reset (.pooled slot)).session (.pooled slot)).account = _
      rw [session, proxy_reset_self]
      rfl
    · show _ → ((w.reset (.pooled slot)).proxy (.pooled slot)).settings = _
      rw [proxy_reset_self]
      exact fun _ ↦ rfl

end

namespace Turns

variable {base w : World σ} {control : ProcessControl σ}

theorem idle (turns : base.Turns w) {w' : World σ} (registry : w'.registry = w.registry)
    (inUse : w'.inUse = w.inUse) (journal : w'.journal = w.journal) : base.Turns w' :=
  turns.tail ⟨[], .idle registry inUse journal⟩

theorem modify (turns : base.Turns w) (k : Handle) {f : Proxy → Proxy}
    (even : (w.proxy k).Even (f (w.proxy k))) : base.Turns (w.modify k f) :=
  turns.tail ⟨[], .modify w k even⟩

theorem call {α : Type} (turns : base.Turns w) {e : Event} (plain : e.Plain)
    (silent : ∀ h a, e.tell h a = a) (f : σ → α × σ) : base.Turns (w.call e f).2 :=
  turns.tail ⟨[e], .call w plain silent f⟩

theorem note (turns : base.Turns w) {e : Event} (passing : e.Passing) : base.Turns (w.note e) := by
  cases e with
  | offered | accepted | noted =>
    refine turns.tail ⟨[_], .call w ?_ (fun _ _ ↦ rfl) fun environment ↦ ((), environment)⟩
    trivial
  | _ => exact passing.elim

theorem setServer (turns : base.Turns w) (k : Handle) (pid : Pid) :
    base.Turns (w.setServer control k pid) := by
  unfold World.setServer
  have asked := (turns.call (e := .scheduleRead k pid) trivial (fun _ _ ↦ rfl)
    (control.schedule pid)).call (e := .priorityRead k pid) trivial (fun _ _ ↦ rfl)
    (control.priority pid)
  exact asked.tail ⟨_, .modify_note _ k trivial (if_pos rfl).symm
    (fun h other a ↦ if_neg other.symm) rfl⟩

theorem changePriority (turns : base.Turns w) (k : Handle) (delta : Int32) :
    base.Turns (w.changePriority control k delta).2 := by
  unfold World.changePriority
  split
  · exact turns
  next pid _ =>
    have read := turns.call (e := .priorityRead k pid) trivial (fun _ _ ↦ rfl)
      (control.priority pid)
    split
    next failed =>
      rw [failed] at read
      exact read
    next current v found =>
      rw [found] at read
      have set := read.call (e := .prioritySet k pid (addPriority current delta)) trivial
        (fun _ _ ↦ rfl) (control.setPriority pid (addPriority current delta))
      dsimp only
      split
      next failed =>
        rw [failed] at set
        exact set
      next done =>
        rw [done] at set
        exact set

theorem setRoundRobin (turns : base.Turns w) (k : Handle) (on : Bool) :
    base.Turns (w.setRoundRobin control k on).2 := by
  unfold World.setRoundRobin
  dsimp only
  split
  · exact turns
  next pid _ =>
    generalize (if on = true then _ else _ : Schedule) = target
    have set := turns.call (e := .scheduleSet k pid target) trivial (fun _ _ ↦ rfl)
      (control.setSchedule pid target)
    split
    next failed =>
      rw [failed] at set
      exact set
    next done =>
      rw [done] at set
      exact set.modify k ⟨rfl, rfl⟩

theorem moveClient (turns : base.Turns w) (source target : SessionId) (slot : Nat) :
    base.Turns (w.moveClient source target slot).2 := by
  unfold World.moveClient
  split
  · exact turns
  split
  · exact turns
  split
  · exact turns
  split
  · exact turns
  split
  · exact turns
  · exact (turns.modify _ ⟨rfl, rfl⟩).modify _ ⟨rfl, rfl⟩

theorem setStaged (turns : base.Turns w) (k : Handle) (kind : PayloadKind)
    (content : Option Bytes) :
    base.Turns (w.modify k (Proxy.modify (Session.setStaged kind content))) :=
  turns.modify k ⟨Session.account_setStaged _ kind content, rfl⟩

theorem restore (turns : base.Turns w) (k : Handle) (kind : PayloadKind) (content : Bytes) :
    base.Turns (w.restore k kind content) := by
  refine turns.modify k ⟨?_, rfl⟩
  rw [Proxy.modify]
  dsimp only
  split
  · exact Session.account_setStaged _ kind (some content)
  · rfl

end Turns

end World

/-- A course goes from turn to turn. -/
theorem Course.turns {control : ProcessControl σ} {base w : World σ}
    (course : Course control base w) : base.Turns w := by
  induction course with
  | start => exact .refl
  | environment _ _ ih => exact ih.idle rfl rfl rfl
  | elapse _ _ ih => exact ih.idle rfl rfl rfl
  | note _ e passing ih => exact ih.note passing
  | @edit w _ h e ih =>
    exact ih.tail ⟨_, .modify_note w h (f := fun p ↦ (e.apply p).2) trivial
      ((e.account_apply _).trans (if_pos rfl).symm) (fun k other a ↦ if_neg other.symm)
      (e.settings_apply _)⟩
  | @reset w _ h ih =>
    exact ih.tail ⟨_, .modify_note w h trivial (if_pos rfl).symm (fun k other a ↦ if_neg other.symm)
      rfl⟩
  | @acquire w _ ih => exact ih.tail w.turn_acquire
  | @release w _ id ih => exact ih.tail (w.turn_release id)
  | moveClient _ source target slot ih => exact ih.moveClient source target slot
  | @terminate w _ h ih => exact ih.tail (w.turn_terminate control h)
  | setServer _ h pid ih => exact ih.setServer h pid
  | changePriority _ h delta ih => exact ih.changePriority h delta
  | setRoundRobin _ h on ih => exact ih.setRoundRobin h on
  | probe _ h pid ih => exact ih.call (e := .probed h pid) trivial (fun _ _ ↦ rfl) _
  | take _ h kind ih => exact ih.setStaged h kind none
  | restore _ h kind content ih => exact ih.restore h kind content
  | @intend w _ h intent ih =>
    exact ih.tail ⟨_, .modify_note w h trivial (if_pos rfl).symm (fun k other a ↦ if_neg other.symm)
      rfl⟩
  | setInflate _ h factor ih => exact ih.modify h ⟨rfl, rfl⟩
  | openPing _ h ih => exact ih.modify h (f := fun p ↦ p.openPing.2) ⟨rfl, rfl⟩
  | dropPing _ h ping _ ih => exact ih.modify h ⟨rfl, rfl⟩

/-- Events are only ever added to the journal. -/
theorem World.Turns.journal_eq {base w : World σ} (turns : base.Turns w) :
    w.journal = w.since base ++ base.journal := by
  have added : ∃ news, w.journal = news ++ base.journal := by
    induction turns with
    | refl => exact ⟨[], rfl⟩
    | tail _ turn ih =>
      obtain ⟨told, turn⟩ := turn
      obtain ⟨news, journal⟩ := ih
      exact ⟨told ++ news, by rw [turn.journal, journal, List.append_assoc]⟩
  obtain ⟨news, journal⟩ := added
  rw [since_eq journal, journal]

/-! ### Worlds that arise -/

namespace World

variable {control : ProcessControl σ} {w : World σ}

theorem Untouched.account_eq (untouched : w.Untouched) (h : Handle) :
    (w.session h).account = {} := by
  obtain ⟨-, -, new⟩ := untouched
  obtain ⟨settings, createdAt, blank⟩ := new h
  rw [session, blank]
  rfl

theorem Arises.turns (arises : w.Arises control) :
    ∃ origin : World σ, origin.Untouched ∧ origin.Turns w := by
  obtain ⟨origin, untouched, course⟩ := arises
  exact ⟨origin, untouched, course.turns⟩

/-- A session is what the journal says of it. -/
theorem Turns.account_session {origin : World σ} (untouched : origin.Untouched)
    (turns : origin.Turns w) (h : Handle) : (w.session h).account = account h w.journal := by
  induction turns with
  | refl =>
    rw [untouched.account_eq, untouched.2.1]
    rfl
  | tail _ turn ih =>
    obtain ⟨told, turn⟩ := turn
    rw [turn.accounts, turn.journal, ih, account, account, List.foldr_append]

theorem Arises.account_session (arises : w.Arises control) (h : Handle) :
    (w.session h).account = account h w.journal := by
  obtain ⟨origin, untouched, turns⟩ := arises.turns
  exact turns.account_session untouched h

end World

end Supervisor
