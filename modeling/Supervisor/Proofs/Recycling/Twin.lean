import Supervisor.Proofs.Recycling.Renewal

/-!
# Twin worlds

Two worlds are twins when they agree on everything but the pings of some proxies, which in the first
are a fixed number of places later, and what earlier callers did with pings from before. Operations
that echo each other are answered alike and lead from twins to twins (`World.Twin.perform`), if the
links of the two worlds do so too.
-/

set_option autoImplicit false
set_option relaxedAutoImplicit false

namespace Supervisor

variable {σ : Type} {α : Type}

/-! ### Messages, frames and journals -/

/-- The frames are of the same message on the same channel, except that the first has the id of the
later ping. -/
structure Dispatch.Echoes (n : Nat) (d d' : Dispatch) : Prop where
  owner : d.owner = d'.owner
  link : d.link = d'.link
  stream : d.stream = d'.stream
  message : d.message = d'.message.later n
  frame : Wire.Frame.encode d.message d.stream = .ok d.frame
  frame' : Wire.Frame.encode d'.message d'.stream = .ok d'.frame

/-- The event names no ping. -/
def Event.Pingless : Event → Prop
  | .edited _ _ | .offered _ | .accepted _ => False
  | _ => True

inductive Event.Echoes (o : Handle → Nat) : Event → Event → Prop
  | same {e : Event} (pingless : e.Pingless) : Echoes o e e
  | edited {h : Handle} {e e' : Edit} (echoes : e.Echoes (o h) e') :
      Echoes o (.edited h e) (.edited h e')
  | offered {d d' : Dispatch} (echoes : d.Echoes (o d.owner) d') :
      Echoes o (.offered d) (.offered d')
  | accepted {d d' : Dispatch} (echoes : d.Echoes (o d.owner) d') :
      Echoes o (.accepted d) (.accepted d')

/-- The journals tell the same, except that the first may also tell what earlier callers did. -/
inductive Event.Echoing (o : Handle → Nat) : List Event → List Event → Prop
  | nil : Echoing o [] []
  | cons {e e' : Event} {events events' : List Event} (first : e.Echoes o e')
      (rest : Echoing o events events') : Echoing o (e :: events) (e' :: events')
  | stale {h : Handle} {e : Edit} {events events' : List Event} (stale : e.Stale (o h))
      (rest : Echoing o events events') : Echoing o (.edited h e :: events) events'

/-- A message and the same one with a later ping id fit a frame alike. -/
theorem Wire.Frame.encode_later (n : Nat) (m : Message) (stream : StreamId) :
    (∃ fault, encode (m.later n) stream = .error fault ∧ encode m stream = .error fault) ∨
      ∃ frame frame', encode (m.later n) stream = .ok frame ∧ encode m stream = .ok frame' := by
  have length : (m.later n).toBytes.length = m.toBytes.length := by
    cases m <;> simp [Message.later, Message.toBytes]
  unfold encode
  dsimp only
  rw [length]
  split
  · exact .inr ⟨_, _, rfl, rfl⟩
  · exact .inl ⟨_, rfl, rfl⟩

/-! ### Worlds -/

/-- Two calls are answered alike, and leave alike what they were made on. -/
def SameAnswer {τ : Type} (alike : τ → τ → Prop) (r r' : α × τ) : Prop :=
  r.1 = r'.1 ∧ alike r.2 r'.2

theorem SameAnswer.exists_eq {τ : Type} {alike : τ → τ → Prop} {r r' : α × τ}
    (same : SameAnswer alike r r') : ∃ a v v', r = (a, v) ∧ r' = (a, v') ∧ alike v v' :=
  ⟨r.1, r.2, r'.2, rfl, Prod.ext same.1.symm rfl, same.2⟩

/-- Processes answer alike in environments that are alike. -/
structure ProcessControl.Respects (control : ProcessControl σ) (alike : σ → σ → Prop) : Prop where
  signal : ∀ pid sig e e', alike e e' →
    SameAnswer alike (control.signal pid sig e) (control.signal pid sig e')
  alive : ∀ pid e e', alike e e' → SameAnswer alike (control.alive pid e) (control.alive pid e')
  priority : ∀ pid e e', alike e e' →
    SameAnswer alike (control.priority pid e) (control.priority pid e')
  setPriority : ∀ pid value e e', alike e e' →
    SameAnswer alike (control.setPriority pid value e) (control.setPriority pid value e')
  schedule : ∀ pid e e', alike e e' →
    SameAnswer alike (control.schedule pid e) (control.schedule pid e')
  setSchedule : ∀ pid value e e', alike e e' →
    SameAnswer alike (control.setSchedule pid value e) (control.setSchedule pid value e')

theorem ProcessControl.Respects.eq (control : ProcessControl σ) : control.Respects Eq := by
  constructor <;> (intros; subst_vars; exact ⟨rfl, rfl⟩)

namespace World

/-- The worlds agree, except that the pings of each proxy `h` are `o h` places later in the first.
Since the journal was `past` the same has been done in both. -/
structure Twin (alike : σ → σ → Prop) (o : Handle → Nat) (past : List Event) (w w' : World σ) :
    Prop where
  proxies : ∀ h, (w.proxy h).Renewed (o h) (w'.proxy h)
  inUse : w.inUse = w'.inUse
  environment : alike w.environment w'.environment
  now : w.now = w'.now
  today : w.today = w'.today
  settings : w.settings = w'.settings
  unmade : ∀ h, ¬ w.Has h → o h = 0
  journal : ∃ news news', w.journal = news ++ past ∧ w'.journal = news' ++ past ∧
    Event.Echoing o news news'

namespace Twin

variable {alike : σ → σ → Prop} {o : Handle → Nat} {past : List Event} {w w' : World σ}
  {h : Handle}

/-- What does not depend on the pings of a session, or on when it was created, is the same. -/
theorem read (twin : Twin alike o past w w') (h : Handle) (f : Session → α)
    (blind : ∀ s n createdAt, f (Session.later n createdAt s) = f s) :
    f (w.session h) = f (w'.session h) := by
  obtain ⟨createdAt, session⟩ := (twin.proxies h).session
  rw [World.session, session, blind]
  rfl

theorem put (twin : Twin alike o past w w') {p p' : Proxy} (renewed : p.Renewed (o h) p') :
    Twin alike o past (w.put h p) (w'.put h p') where
  proxies k := by
    by_cases same : k = h
    · subst same
      rw [proxy_put_self, proxy_put_self]
      exact renewed
    · rw [proxy_put_of_ne w p same, proxy_put_of_ne w' p' same]
      exact twin.proxies k
  inUse := twin.inUse
  environment := twin.environment
  now := twin.now
  today := twin.today
  settings := twin.settings
  unmade := twin.unmade
  journal := twin.journal

/-- The same is done to the two sessions, and no ping is added. -/
theorem modifyUnder (twin : Twin alike o past w w') (h : Handle)
    (f : Settings → Session → Session)
    (same : ∀ settings s createdAt,
      f settings (s.later (o h) createdAt) = (f settings s).later (o h) createdAt)
    (pings : ∀ settings s, (f settings s).pings ⊆ s.pings) :
    Twin alike o past (w.modify h fun p ↦ p.modify (f p.settings))
      (w'.modify h fun p ↦ p.modify (f p.settings)) := by
  obtain ⟨createdAt, session⟩ := (twin.proxies h).session
  refine twin.put ((twin.proxies h).withSession createdAt ?_ (pings _ _))
  rw [session, (twin.proxies h).settings, same]

theorem modify (twin : Twin alike o past w w') (h : Handle) {f : Session → Session}
    (same : ∀ s createdAt, f (s.later (o h) createdAt) = (f s).later (o h) createdAt)
    (pings : ∀ s, (f s).pings ⊆ s.pings) :
    Twin alike o past (w.modify h (Proxy.modify f)) (w'.modify h (Proxy.modify f)) :=
  twin.modifyUnder h (fun _ ↦ f) (fun _ ↦ same) fun _ ↦ pings

theorem note (twin : Twin alike o past w w') {e e' : Event} (echoes : e.Echoes o e') :
    Twin alike o past (w.note e) (w'.note e') := by
  obtain ⟨news, news', journal, journal', echoing⟩ := twin.journal
  exact ⟨twin.proxies, twin.inUse, twin.environment, twin.now, twin.today, twin.settings,
    twin.unmade, e :: news, e' :: news', congrArg (e :: ·) journal, congrArg (e' :: ·) journal',
    .cons echoes echoing⟩

theorem enter (twin : Twin alike o past w w') (e : Event) (pingless : e.Pingless) :
    Twin alike o past (w.note e) (w'.note e) :=
  twin.note (.same pingless)

theorem change (twin : Twin alike o past w w') {environment environment' : σ}
    (same : alike environment environment') : Twin alike o past
      { w with environment := environment } { w' with environment := environment' } :=
  ⟨twin.proxies, twin.inUse, same, twin.now, twin.today, twin.settings, twin.unmade, twin.journal⟩

theorem call (twin : Twin alike o past w w') (e : Event) (pingless : e.Pingless) {f : σ → α × σ}
    (same : ∀ environment environment', alike environment environment' →
      SameAnswer alike (f environment) (f environment')) :
    SameAnswer (Twin alike o past) (w.call e f) (w'.call e f) := by
  obtain ⟨answer, after⟩ := same _ _ twin.environment
  exact ⟨answer, (twin.enter e pingless).change after⟩

theorem mark (twin : Twin alike o past w w') {inUse inUse' : List Bool} (same : inUse = inUse')
    (slots : w.inUse.length ≤ inUse.length) :
    Twin alike o past { w with inUse := inUse } { w' with inUse := inUse' } := by
  refine ⟨twin.proxies, same, twin.environment, twin.now, twin.today, twin.settings,
    fun h missing ↦ twin.unmade h fun known ↦ missing ?_, twin.journal⟩
  cases h with
  | standalone number => trivial
  | pooled slot => exact Nat.lt_of_lt_of_le known slots

theorem edit (twin : Twin alike o past w w') {e e' : Edit} (echoes : e.Echoes (o h) e') :
    (w.edit h e).1 = (w'.edit h e').1.later (o h) ∧
      Twin alike o past (w.edit h e).2 (w'.edit h e').2 := by
  obtain ⟨answer, after⟩ := (twin.proxies h).apply echoes
  exact ⟨answer, (twin.put after).note (.edited echoes)⟩

theorem reset (twin : Twin alike o past w w') (h : Handle) :
    Twin alike o past (w.reset h) (w'.reset h) := by
  have cleared : Twin alike o past (w.modify h (Proxy.reset w.today))
      (w'.modify h (Proxy.reset w'.today)) := by
    refine twin.put ?_
    rw [twin.today]
    exact (twin.proxies h).reset _
  exact cleared.enter (.fresh h) trivial

/-- What is done to a proxy in the first world alone may be nothing that the second could tell. -/
theorem aside (twin : Twin alike o past w w') {p : Proxy} (renewed : p.Renewed (o h) (w'.proxy h)) :
    Twin alike o past (w.put h p) w' := by
  refine ⟨fun k ↦ ?_, twin.inUse, twin.environment, twin.now, twin.today, twin.settings,
    twin.unmade, twin.journal⟩
  by_cases same : k = h
  · subst same
    rw [proxy_put_self]
    exact renewed
  · rw [proxy_put_of_ne w p same]
    exact twin.proxies k

/-- What an earlier caller does leaves the worlds twins. -/
theorem stale (twin : Twin alike o past w w') {e : Edit} (stale : e.Stale (o h))
    (few : 0 < o h → (w.proxy h).opened ≤ 2 ^ 64) : Twin alike o past (w.edit h e).2 w' := by
  obtain ⟨-, -, renewed⟩ := (twin.proxies h).stale few stale
  have after := twin.aside renewed
  obtain ⟨news, news', journal, journal', echoing⟩ := after.journal
  exact ⟨after.proxies, after.inUse, after.environment, after.now, after.today, after.settings,
    after.unmade, .edited h e :: news, news', congrArg (_ :: ·) journal, journal',
    .stale stale echoing⟩

theorem abandon (twin : Twin alike o past w w') {ping : Ping} (early : ping.serial < o h)
    (few : 0 < o h → (w.proxy h).opened ≤ 2 ^ 64) :
    Twin alike o past (w.modify h (Proxy.dropPing ping)) w' :=
  twin.aside ((twin.proxies h).abandon few early).2

/-! ### Processes -/

variable {control : ProcessControl σ}

theorem terminate (twin : Twin alike o past w w') (respects : control.Respects alike) (h : Handle) :
    SameAnswer (Twin alike o past) (w.terminate control h) (w'.terminate control h) := by
  have terminated := twin.read h Session.terminated fun _ _ _ ↦ rfl
  have invalidated := twin.read h Session.invalidated fun _ _ _ ↦ rfl
  have pid := twin.read h Session.pid fun _ _ _ ↦ rfl
  have settings := (twin.proxies h).settings
  have marked : Twin alike o past ((w.modify h Proxy.markTerminated).note (.ended h))
      ((w'.modify h Proxy.markTerminated).note (.ended h)) :=
    (twin.put (twin.proxies h).markTerminated).enter (.ended h) trivial
  have finish {v v' : World σ} (after : Twin alike o past v v') :
      Twin alike o past (v.modify h Proxy.finishTermination)
        (v'.modify h Proxy.finishTermination) :=
    after.put (after.proxies h).finishTermination
  unfold World.session at terminated invalidated pid
  unfold World.terminate
  simp only [terminated, invalidated, pid, settings]
  split
  · exact ⟨rfl, twin⟩
  cases (w'.proxy h).session.pid with
  | none => exact ⟨rfl, finish marked⟩
  | some pid =>
    have signalled := marked.call (.signalled h pid (w'.proxy h).settings.terminateSignal)
      trivial (respects.signal pid (w'.proxy h).settings.terminateSignal)
    exact ⟨signalled.1, finish signalled.2⟩

theorem setServer (twin : Twin alike o past w w') (respects : control.Respects alike) (h : Handle)
    (pid : Pid) : Twin alike o past (w.setServer control h pid) (w'.setServer control h pid) := by
  obtain ⟨schedule, v, v', called, called', asked⟩ :=
    (twin.call (.scheduleRead h pid) trivial (respects.schedule pid)).exists_eq
  obtain ⟨priority, u, u', again, again', found⟩ :=
    (asked.call (.priorityRead h pid) trivial (respects.priority pid)).exists_eq
  unfold World.setServer
  rw [called, called']
  dsimp only
  rw [again, again']
  refine (found.modifyUnder h (fun settings s ↦
    { s with
      pid := some pid
      schedule := schedule.toOption.getD settings.schedule
      defaultSchedule := schedule.toOption.getD settings.schedule
      defaultPriority := priority.toOption }) (fun _ _ _ ↦ rfl)
    fun _ _ ↦ List.Subset.refl _).enter (.recorded h pid) trivial

theorem changePriority (twin : Twin alike o past w w') (respects : control.Respects alike)
    (h : Handle) (delta : Int32) : SameAnswer (Twin alike o past)
      (w.changePriority control h delta) (w'.changePriority control h delta) := by
  have recorded := twin.read h Session.pid fun _ _ _ ↦ rfl
  unfold World.changePriority
  rw [recorded]
  cases (w'.session h).pid with
  | none => exact ⟨rfl, twin⟩
  | some pid =>
    obtain ⟨found, v, v', called, called', read⟩ :=
      (twin.call (.priorityRead h pid) trivial (respects.priority pid)).exists_eq
    dsimp only
    rw [called, called']
    cases found with
    | error fault => exact ⟨rfl, read⟩
    | ok current =>
      obtain ⟨done, u, u', called, called', set⟩ :=
        (read.call (.prioritySet h pid (addPriority current delta)) trivial
          (respects.setPriority pid (addPriority current delta))).exists_eq
      dsimp only
      rw [called, called']
      cases done with
      | error fault => exact ⟨rfl, set⟩
      | ok => exact ⟨rfl, set⟩

theorem setRoundRobin (twin : Twin alike o past w w') (respects : control.Respects alike)
    (h : Handle) (on : Bool) : SameAnswer (Twin alike o past)
      (w.setRoundRobin control h on) (w'.setRoundRobin control h on) := by
  have recorded := twin.read h Session.pid fun _ _ _ ↦ rfl
  have default := twin.read h Session.defaultSchedule fun _ _ _ ↦ rfl
  have settings := (twin.proxies h).settings
  unfold World.session at recorded default
  unfold World.setRoundRobin
  simp only [recorded, default, settings]
  cases (w'.proxy h).session.pid with
  | none => exact ⟨rfl, twin⟩
  | some pid =>
    dsimp only
    generalize (if on = true then _ else _ : Schedule) = target
    obtain ⟨done, v, v', called, called', set⟩ :=
      (twin.call (.scheduleSet h pid target) trivial (respects.setSchedule pid target)).exists_eq
    rw [called, called']
    cases done with
    | error fault => exact ⟨rfl, set⟩
    | ok => exact ⟨rfl, set.modify h (fun _ _ ↦ rfl) fun _ ↦ List.Subset.refl _⟩

/-! ### The pool -/

theorem slotOf? (twin : Twin alike o past w w') (id : SessionId) :
    w.slotOf? id = w'.slotOf? id := by
  unfold World.slotOf?
  rw [twin.inUse]

theorem get? (twin : Twin alike o past w w') (id : SessionId) : w.get? id = w'.get? id := by
  unfold World.get?
  rw [twin.slotOf?]

theorem active (twin : Twin alike o past w w') : w.active = w'.active := by
  unfold World.active
  rw [twin.inUse]

theorem setId (twin : Twin alike o past w w') (h : Handle) (id : SessionId) :
    Twin alike o past (w.setId h id) (w'.setId h id) :=
  twin.modify h (fun _ _ ↦ rfl) fun _ ↦ List.Subset.refl _

theorem reuse (twin : Twin alike o past w w') (slot : Nat) :
    Twin alike o past (w.reuse slot) (w'.reuse slot) := by
  have handed := ((twin.reset (.pooled slot)).setId (.pooled slot) (Int16.ofNat slot)).enter
    (.acquired slot) trivial
  refine handed.mark (congrArg (·.set slot true) twin.inUse) ?_
  rw [List.length_set]
  exact Nat.le_refl _

theorem grow (twin : Twin alike o past w w') : Twin alike o past w.grow w'.grow := by
  have missing : ¬ w.Has (.pooled w.inUse.length) := Nat.lt_irrefl _
  have made : (Proxy.new w.settings w.today).Renewed (o (.pooled w.inUse.length))
      (Proxy.new w'.settings w'.today) := by
    rw [twin.unmade _ missing, twin.settings, twin.today]
    exact .refl (Proxy.sound_new _ _)
  have handed := (((twin.put made).enter (.fresh (.pooled w.inUse.length)) trivial).setId
    (.pooled w.inUse.length) (Int16.ofNat w.inUse.length)).enter (.acquired w.inUse.length) trivial
  unfold World.grow
  dsimp only
  rw [← twin.inUse]
  refine handed.mark (congrArg (· ++ [true]) twin.inUse) ?_
  rw [List.length_append]
  exact Nat.le_add_right _ _

theorem acquire (twin : Twin alike o past w w') :
    SameAnswer (Twin alike o past) w.acquire w'.acquire := by
  have capacity : w.capacity = w'.capacity := by
    unfold World.capacity
    rw [twin.settings]
  unfold World.acquire
  rw [twin.inUse, capacity]
  dsimp only
  split
  · exact ⟨rfl, twin.reuse _⟩
  split
  · exact ⟨rfl, twin⟩
  · exact ⟨rfl, twin.grow⟩

theorem release (twin : Twin alike o past w w') (id : SessionId) :
    SameAnswer (Twin alike o past) (w.release id) (w'.release id) := by
  unfold World.release
  rw [twin.slotOf?]
  split
  · exact ⟨rfl, twin⟩
  next slot _ =>
    have cleared := (twin.reset (.pooled slot)).enter (.released slot) trivial
    refine ⟨rfl, cleared.mark (congrArg (·.set slot false) twin.inUse) ?_⟩
    rw [List.length_set]
    exact Nat.le_refl _

theorem moveClient (twin : Twin alike o past w w') (source target : SessionId) (slot : Nat) :
    SameAnswer (Twin alike o past) (w.moveClient source target slot)
      (w'.moveClient source target slot) := by
  unfold World.moveClient
  rw [twin.get?, twin.get?]
  cases w'.get? source with
  | none => exact ⟨rfl, twin⟩
  | some giver =>
    have given := twin.read giver Session.clients fun _ _ _ ↦ rfl
    dsimp only
    rw [given]
    split
    · exact ⟨rfl, twin⟩
    cases w'.get? target with
    | none => exact ⟨rfl, twin⟩
    | some taker =>
      have taken := twin.read taker Session.clients fun _ _ _ ↦ rfl
      have accepts := twin.read taker Session.acceptsNewWork fun _ _ _ ↦ rfl
      dsimp only
      rw [taken, accepts]
      split
      · exact ⟨rfl, twin⟩
      split
      · exact ⟨rfl, twin⟩
      next client left _ =>
        have reseat {v v' : World σ} (after : Twin alike o past v v') (h : Handle)
            (clients : Slots) : Twin alike o past
              (v.modify h (Proxy.modify fun s ↦ { s with clients := clients }))
              (v'.modify h (Proxy.modify fun s ↦ { s with clients := clients })) :=
          after.modify h (fun _ _ ↦ rfl) fun _ ↦ List.Subset.refl _
        exact ⟨rfl, reseat (reseat twin giver left) taker _⟩

end Twin

end World

end Supervisor
