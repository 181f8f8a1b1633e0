import Supervisor.Proofs.Journal.Turn

/-!
# What is written on a session

The labels of a session and its effective fraction are written by edits and by nothing else, and
they are wiped out when the proxy starts as new. So the journal tells them: a label is what is kept
of the text given for it last (`World.Arises.label_session`), and the effective fraction is the one
set last (`World.Arises.fraction_session`), both since the proxy last started as new.
-/

set_option autoImplicit false
set_option relaxedAutoImplicit false

namespace Supervisor

structure Inscription where
  label : Label → Option String := fun _ ↦ none
  fraction : Number.Single := Number.Single.zero

def Session.inscription (s : Session) : Inscription :=
  ⟨s.label, s.effectiveFraction⟩

def Inscription.edit (a : Inscription) : Edit → Inscription
  | .setLabel label text =>
    { a with label := fun other ↦ if other = label then label.keep text else a.label other }
  | .setEffectiveFraction value => { a with fraction := value }
  | _ => a

/-- What the event changes of what is written on the session of `h`. -/
def Event.inscribe (h : Handle) : Event → Inscription → Inscription
  | .fresh k, a => if k = h then {} else a
  | .edited k e, a => if k = h then a.edit e else a
  | _, a => a

/-- What is written on the session of `h` as the journal tells it. -/
def inscription (h : Handle) (events : List Event) : Inscription :=
  events.foldr (Event.inscribe h) {}

def Event.label? (h : Handle) (label : Label) : Event → Option String
  | .edited k (.setLabel other text) => if k = h ∧ label = other then some text else none
  | _ => none

def Event.fraction? (h : Handle) : Event → Option Number.Single
  | .edited k (.setEffectiveFraction value) => if k = h then some value else none
  | _ => none

/-- The text given last for a label since the proxy started as new. -/
def lastLabel? (h : Handle) (label : Label) (events : List Event) : Option String :=
  (lifetime h events).findSome? (Event.label? h label)

/-- The effective fraction set last since the proxy started as new. -/
def lastFraction? (h : Handle) (events : List Event) : Option Number.Single :=
  (lifetime h events).findSome? (Event.fraction? h)

/-! ### What the journal tells -/

section

variable {α β : Type} {h : Handle} {e : Event}

/-- Each event of a life writes the field or leaves it alone, so the last one to write decides. -/
theorem inscription_eq_findSome? (field : Inscription → β) {told : Event → Option α}
    (read : Option α → β) (start : field {} = read none)
    (step : ∀ e a, e ≠ .fresh h →
      field (e.inscribe h a) = ((told e).map (read ∘ some)).getD (field a))
    (events : List Event) :
    field (inscription h events) = read ((lifetime h events).findSome? told) := by
  induction events with
  | nil => exact start
  | cons e events ih =>
    show field (e.inscribe h (inscription h events)) = _
    by_cases live : e = .fresh h
    · subst live
      rw [lifetime_fresh, Event.inscribe, if_pos rfl]
      exact start
    · rw [lifetime_cons live, step e _ live, ih, List.findSome?_cons]
      cases told e with
      | none => rfl
      | some value => rfl

theorem label_inscription (h : Handle) (label : Label) (events : List Event) :
    (inscription h events).label label = (lastLabel? h label events).bind label.keep := by
  refine inscription_eq_findSome? (fun a ↦ a.label label) (fun text ↦ text.bind label.keep) rfl
    (fun e a live ↦ ?_) events
  cases e with
  | fresh k =>
    have other : k ≠ h := fun same ↦ live (same ▸ rfl)
    simp [Event.inscribe, Event.label?, other]
  | edited k e =>
    by_cases same : k = h
    · cases e with
      | setLabel written text =>
        by_cases here : label = written
        · simp [Event.inscribe, Event.label?, Inscription.edit, same, here]
        · simp [Event.inscribe, Event.label?, Inscription.edit, same, here]
      | _ => simp [Event.inscribe, Event.label?, Inscription.edit, same]
    · cases e <;> simp [Event.inscribe, Event.label?, same]
  | _ => rfl

theorem fraction_inscription (h : Handle) (events : List Event) :
    (inscription h events).fraction = (lastFraction? h events).getD Number.Single.zero := by
  refine inscription_eq_findSome? Inscription.fraction
    (fun value ↦ value.getD Number.Single.zero) rfl (fun e a live ↦ ?_) events
  cases e with
  | fresh k =>
    have other : k ≠ h := fun same ↦ live (same ▸ rfl)
    simp [Event.inscribe, Event.fraction?, other]
  | edited k e =>
    by_cases same : k = h
    · cases e <;> simp [Event.inscribe, Event.fraction?, Inscription.edit, same]
    · cases e <;> simp [Event.inscribe, Event.fraction?, same]
  | _ => rfl

end

/-! ### What each change does to it -/

theorem Session.inscription_new (settings : Settings) (createdAt : Calendar.Timestamp) :
    (Session.new settings createdAt).inscription = {} :=
  congrArg (Inscription.mk · _) (funext fun label ↦ by cases label <;> rfl)

namespace Proxy

variable (p : Proxy)

theorem inscription_deliver (id : PingId) :
    (p.deliver id).2.session.inscription = p.session.inscription := by
  unfold deliver
  split
  · rfl
  · rfl

theorem inscription_awaitPing (ping : Ping) :
    (p.awaitPing ping).2.session.inscription = p.session.inscription := by
  unfold awaitPing
  split
  · rfl
  split
  · rfl
  · rfl

theorem inscription_handle (m : Message) :
    (p.handle m).session.inscription = p.session.inscription := by
  cases m with
  | pingReply id => exact p.inscription_deliver id
  | _ => rfl

theorem inscription_route (source : Wire.Source) :
    (p.route source).2.session.inscription = p.session.inscription := by
  rw [route_eq]
  generalize (Wire.Frame.readAll source).1 = frames
  induction frames generalizing p with
  | nil => rfl
  | cons frame frames ih => exact (ih _).trans (p.inscription_handle frame.1)

theorem inscription_finishTermination :
    p.finishTermination.session.inscription = p.session.inscription :=
  rfl

end Proxy

theorem Session.inscription_setStaged (s : Session) (kind : PayloadKind)
    (content : Option Bytes) : (s.setStaged kind content).inscription = s.inscription := by
  cases kind <;> rfl

theorem Session.inscription_setLabel (s : Session) (label : Label) (text : String) :
    (s.setLabel label text).inscription = s.inscription.edit (.setLabel label text) := by
  have fraction : (s.setLabel label text).effectiveFraction = s.effectiveFraction := by
    cases label <;> rfl
  have labels : (s.setLabel label text).label =
      fun other ↦ if other = label then label.keep text else s.label other :=
    funext fun other ↦ s.label_setLabel label other text
  rw [inscription, fraction, labels]
  rfl

theorem Edit.inscription_apply (e : Edit) (p : Proxy) :
    (e.apply p).2.session.inscription = p.session.inscription.edit e := by
  cases e with
  | setLabel label text => exact p.session.inscription_setLabel label text
  | setValid value =>
    show (p.session.setValid value).inscription = _
    unfold Session.setValid
    split
    · split
      · rfl
      · rfl
    · rfl
  | stage kind content => exact p.session.inscription_setStaged kind _
  | unstage kind => exact p.session.inscription_setStaged kind none
  | awaitPing ping =>
    simp only [apply, Proxy.awaitCallersPing]
    split
    · exact p.inscription_awaitPing ping
    · rfl
  | dropPing ping =>
    simp only [apply, Proxy.dropCallersPing]
    split
    · rfl
    · rfl
  | deliver id => exact p.inscription_deliver id
  | handle m => exact p.inscription_handle m
  | route source => exact p.inscription_route source
  | _ => rfl

namespace World

variable {σ : Type} {control : ProcessControl σ} {w : World σ}

/-- What is written on the sessions is what the journal tells. -/
def Inscribed (w : World σ) : Prop :=
  ∀ h, (w.session h).inscription = inscription h w.journal

namespace Inscribed

/-- A change to one proxy and the event that says so. -/
theorem modify_note (known : w.Inscribed) (k : Handle) {f : Proxy → Proxy} {e : Event}
    (same : (f (w.proxy k)).session.inscription = e.inscribe k (w.session k).inscription)
    (foreign : ∀ h, h ≠ k → ∀ a, e.inscribe h a = a) : ((w.modify k f).note e).Inscribed := by
  intro h
  show _ = e.inscribe h (inscription h w.journal)
  rw [← known h, session, proxy_note]
  by_cases here : h = k
  · subst here
    rw [proxy_modify_self, same]
  · rw [proxy_modify_of_ne _ _ here, foreign h here, session]

theorem modify (known : w.Inscribed) (k : Handle) {f : Proxy → Proxy}
    (same : (f (w.proxy k)).session.inscription = (w.session k).inscription) :
    (w.modify k f).Inscribed := by
  intro h
  rw [journal_modify, ← known h, session]
  by_cases here : h = k
  · subst here
    rw [proxy_modify_self, same]
  · rw [proxy_modify_of_ne _ _ here, session]

theorem note (known : w.Inscribed) {e : Event} (silent : ∀ h a, e.inscribe h a = a) :
    (w.note e).Inscribed :=
  fun h ↦ (known h).trans (silent h _).symm

theorem call {α : Type} (known : w.Inscribed) {e : Event} (silent : ∀ h a, e.inscribe h a = a)
    (f : σ → α × σ) : (w.call e f).2.Inscribed :=
  known.note silent

theorem edit (known : w.Inscribed) (k : Handle) (e : Edit) : (w.edit k e).2.Inscribed :=
  known.modify_note k (f := fun p ↦ (e.apply p).2)
    ((e.inscription_apply _).trans (if_pos rfl).symm) fun _ other _ ↦ if_neg other.symm

theorem reset (known : w.Inscribed) (k : Handle) : (w.reset k).Inscribed :=
  known.modify_note k ((Session.inscription_new _ _).trans (if_pos rfl).symm)
    fun _ other _ ↦ if_neg other.symm

/-- The proxy of a slot starts as new and is handed out. -/
theorem of_slot {v : World σ} (known : w.Inscribed) (slot : Nat)
    (journal : v.journal = .acquired slot :: .fresh (.pooled slot) :: w.journal)
    (elsewhere : ∀ k, k ≠ .pooled slot → v.proxy k = w.proxy k)
    (new : (v.session (.pooled slot)).inscription = {}) : v.Inscribed := by
  intro h
  rw [journal]
  show _ = Event.inscribe h (.fresh (.pooled slot)) (inscription h w.journal)
  by_cases here : h = .pooled slot
  · subst here
    rw [new, Event.inscribe, if_pos rfl]
  · rw [Event.inscribe, if_neg fun same ↦ here same.symm, ← known h, session, elsewhere h here,
      session]

theorem acquire (known : w.Inscribed) : w.acquire.2.Inscribed := by
  unfold World.acquire
  dsimp only
  split
  · refine known.of_slot _ rfl (fun k other ↦
      (proxy_modify_of_ne _ _ other).trans (proxy_modify_of_ne w _ other)) ?_
    rw [session, proxy_reuse_self]
    exact Session.inscription_new (w.proxy (.pooled (w.inUse.findIdx (!·)))).settings w.today
  split
  · exact known
  · refine known.of_slot w.inUse.length rfl (fun k other ↦
      (proxy_modify_of_ne _ _ other).trans (proxy_put_of_ne w _ other)) ?_
    rw [session, proxy_grow_self]
    exact Session.inscription_new w.settings w.today

theorem release (known : w.Inscribed) (id : SessionId) : (w.release id).2.Inscribed := by
  unfold World.release
  split
  · exact known
  · exact (known.reset _).note (e := .released _) fun _ _ ↦ rfl

theorem moveClient (known : w.Inscribed) (source target : SessionId) (slot : Nat) :
    (w.moveClient source target slot).2.Inscribed := by
  unfold World.moveClient
  split
  · exact known
  split
  · exact known
  split
  · exact known
  split
  · exact known
  split
  · exact known
  · exact (known.modify _ rfl).modify _ rfl

theorem terminate (known : w.Inscribed) (k : Handle) : (w.terminate control k).2.Inscribed := by
  unfold World.terminate
  dsimp only
  split
  · exact known
  have marked : ((w.modify k Proxy.markTerminated).note (.ended k)).Inscribed :=
    (known.modify k rfl).note fun _ _ ↦ rfl
  split
  · exact marked.modify k (Proxy.inscription_finishTermination _)
  · exact (marked.call (fun _ _ ↦ rfl) _).modify k (Proxy.inscription_finishTermination _)

theorem setServer (known : w.Inscribed) (k : Handle) (pid : Pid) :
    (w.setServer control k pid).Inscribed := by
  have asked := (known.call (e := .scheduleRead k pid) (fun _ _ ↦ rfl)
    (control.schedule pid)).call (e := .priorityRead k pid) (fun _ _ ↦ rfl) (control.priority pid)
  exact (asked.modify k rfl).note (e := .recorded k pid) fun _ _ ↦ rfl

theorem changePriority (known : w.Inscribed) (k : Handle) (delta : Int32) :
    (w.changePriority control k delta).2.Inscribed := by
  unfold World.changePriority
  split
  · exact known
  next pid _ =>
    have read := known.call (e := .priorityRead k pid) (fun _ _ ↦ rfl) (control.priority pid)
    split
    next failed =>
      rw [failed] at read
      exact read
    next current v found =>
      rw [found] at read
      have set := read.call (e := .prioritySet k pid (addPriority current delta)) (fun _ _ ↦ rfl)
        (control.setPriority pid (addPriority current delta))
      dsimp only
      split
      next failed =>
        rw [failed] at set
        exact set
      next done =>
        rw [done] at set
        exact set

theorem setRoundRobin (known : w.Inscribed) (k : Handle) (on : Bool) :
    (w.setRoundRobin control k on).2.Inscribed := by
  unfold World.setRoundRobin
  dsimp only
  split
  · exact known
  next pid _ =>
    generalize (if on = true then _ else _ : Schedule) = target
    have set := known.call (e := .scheduleSet k pid target) (fun _ _ ↦ rfl)
      (control.setSchedule pid target)
    split
    next failed =>
      rw [failed] at set
      exact set
    next done =>
      rw [done] at set
      exact set.modify k rfl

theorem setStaged (known : w.Inscribed) (k : Handle) (kind : PayloadKind)
    (content : Option Bytes) :
    (w.modify k (Proxy.modify (Session.setStaged kind content))).Inscribed :=
  known.modify k (Session.inscription_setStaged _ kind content)

theorem restore (known : w.Inscribed) (k : Handle) (kind : PayloadKind) (content : Bytes) :
    (w.restore k kind content).Inscribed := by
  refine known.modify k ?_
  rw [Proxy.modify]
  dsimp only
  split
  · exact Session.inscription_setStaged _ kind (some content)
  · rfl

theorem course {base : World σ} (known : base.Inscribed) (course : Course control base w) :
    w.Inscribed := by
  induction course with
  | start => exact known
  | environment _ _ ih => exact ih
  | elapse _ _ ih => exact ih
  | note _ e passing ih =>
    refine ih.note fun h a ↦ ?_
    cases e with
    | offered | accepted | noted => rfl
    | _ => exact passing.elim
  | edit _ k e ih => exact ih.edit k e
  | reset _ k ih => exact ih.reset k
  | acquire _ ih => exact ih.acquire
  | release _ id ih => exact ih.release id
  | moveClient _ source target slot ih => exact ih.moveClient source target slot
  | terminate _ k ih => exact ih.terminate k
  | setServer _ k pid ih => exact ih.setServer k pid
  | changePriority _ k delta ih => exact ih.changePriority k delta
  | setRoundRobin _ k on ih => exact ih.setRoundRobin k on
  | probe _ k pid ih => exact ih.call (e := .probed k pid) (fun _ _ ↦ rfl) _
  | take _ k kind ih => exact ih.setStaged k kind none
  | restore _ k kind content ih => exact ih.restore k kind content
  | intend _ k intent ih => exact (ih.modify k rfl).note fun _ _ ↦ rfl
  | setInflate _ k factor ih => exact ih.modify k rfl
  | openPing _ k ih => exact ih.modify k (f := fun p ↦ p.openPing.2) rfl
  | dropPing _ k ping _ ih => exact ih.modify k rfl

end Inscribed

theorem Untouched.inscribed (untouched : w.Untouched) : w.Inscribed := by
  obtain ⟨-, quiet, new⟩ := untouched
  intro h
  obtain ⟨settings, createdAt, blank⟩ := new h
  rw [session, blank, quiet]
  exact Session.inscription_new settings createdAt

theorem Arises.inscribed (arises : w.Arises control) : w.Inscribed := by
  obtain ⟨origin, untouched, course⟩ := arises
  exact untouched.inscribed.course course

/-- A label is what is kept of the text given for it last. -/
theorem Arises.label_session (arises : w.Arises control) (h : Handle) (label : Label) :
    (w.session h).label label = (lastLabel? h label w.journal).bind label.keep := by
  rw [← label_inscription, ← arises.inscribed h]
  rfl

theorem Arises.fraction_session (arises : w.Arises control) (h : Handle) :
    (w.session h).effectiveFraction = (lastFraction? h w.journal).getD Number.Single.zero := by
  rw [← fraction_inscription, ← arises.inscribed h]
  rfl

end World

end Supervisor
