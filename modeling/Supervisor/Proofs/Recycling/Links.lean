import Supervisor.Proofs.Course.Run
import Supervisor.Proofs.Recycling.Twin

/-!
# Twin worlds and their links

What a link does with a frame may depend on the id of a ping. Links that do to twins what echoes
each other keep them twins, and then so does every operation (`World.Twin.perform`).

That the ids of the recycled proxy have not come round again is asked for where an operation ends.
It holds before then, too, since pings are only ever opened (`World.Few.earlier`).
-/

set_option autoImplicit false
set_option relaxedAutoImplicit false

namespace Supervisor

variable {σ : Type} {α : Type}

/-! ### Operations and answers -/

/-- The operation names no ping. -/
def Operation.Pingless : Operation → Prop
  | .edit _ _ | .send _ _ => False
  | _ => True

/-- The operations are the same, except that the first names the later pings. -/
inductive Operation.Echoes (o : Handle → Nat) : Operation → Operation → Prop
  | same {op : Operation} (pingless : op.Pingless) : Echoes o op op
  | edit {h : Handle} {e e' : Edit} (echoes : e.Echoes (o h) e') : Echoes o (.edit h e) (.edit h e')
  | send (h : Handle) (m : Message) : Echoes o (.send h (m.later (o h))) (.send h m)

/-- How many places later the pings are that the answer to an operation may name. -/
def Operation.offset (o : Handle → Nat) : Operation → Nat
  | .edit h _ => o h
  | _ => 0

/-- The answer with the later ping, if it is one. -/
def Answer.later (n : Nat) : Answer → Answer
  | .edited answer => .edited (answer.later n)
  | answer => answer

@[simp] theorem Edit.Answer.later_zero (answer : Edit.Answer) : answer.later 0 = answer := by
  cases answer <;> simp [later]

@[simp] theorem Answer.later_zero (answer : Answer) : answer.later 0 = answer := by
  cases answer <;> simp [later]

namespace World

/-! ### Ids that do not recur -/

/-- No proxy with later pings has opened so many that an id recurs. -/
def Few (o : Handle → Nat) (w : World σ) : Prop :=
  ∀ h, 0 < o h → (w.proxy h).opened ≤ 2 ^ 64

variable {control : ProcessControl σ} {alike : σ → σ → Prop} {o : Handle → Nat}
  {past : List Event}

/-- Further on, every proxy is still there, and has opened more pings. -/
def Further (v w : World σ) : Prop :=
  ∀ h, v.Has h → w.Has h ∧ (v.proxy h).opened ≤ (w.proxy h).opened

theorem Further.refl (w : World σ) : w.Further w :=
  fun _ known ↦ ⟨known, Nat.le_refl _⟩

theorem Further.trans {u v w : World σ} (first : u.Further v) (second : v.Further w) :
    u.Further w := by
  intro h known
  obtain ⟨there, some⟩ := first h known
  obtain ⟨still, more⟩ := second h there
  exact ⟨still, Nat.le_trans some more⟩

theorem Further.of_course {v w : World σ} (course : Course control v w) : v.Further w :=
  fun _ known ↦ ⟨course.has known, course.opened_le known⟩

theorem Few.earlier {u u' v w : World σ} (few : Few o w) (twin : Twin alike o past u u')
    (before : u.Further v) (after : v.Further w) : Few o v := by
  intro h used
  have known : u.Has h := by
    by_contra missing
    exact Nat.ne_of_gt used (twin.unmade h missing)
  exact Nat.le_trans (after h (before h known).1).2 (few h used)

theorem Few.of_modify {w : World σ} {h : Handle} {f : Proxy → Proxy} (few : Few o (w.modify h f))
    (opened : (f (w.proxy h)).opened = (w.proxy h).opened) : Few o w := by
  intro k used
  have bound := few k used
  by_cases same : k = h
  · subst same
    rwa [proxy_modify_self, opened] at bound
  · rwa [proxy_modify_of_ne w f same] at bound

/-- Unless an id recurs, the results are the same and the worlds twins. -/
def Matched (alike : σ → σ → Prop) (o : Handle → Nat) (past : List Event)
    (r r' : α × World σ) : Prop :=
  Few o r.2 → SameAnswer (Twin alike o past) r r'

/-- What the links `t` do with a frame in the one world, `t'` do with that of the other, as far as
anyone but earlier callers could tell. -/
structure Attuned (control : ProcessControl σ) (alike : σ → σ → Prop) (o : Handle → Nat)
    (past : List Event) (t t' : Link → Bytes → World σ → Except IoFault Unit × World σ) : Prop where
  orderly : (Host.mk control t).Orderly
  same : ∀ {d d' : Dispatch} {v v' : World σ}, d.Echoes (o d.owner) d' → Twin alike o past v v' →
    Matched alike o past (t d.link d.frame (v.note (.offered d)))
      (t' d'.link d'.frame (v'.note (.offered d')))

/-! ### One attempt of a round of pings -/

section

variable (host : Host σ) (h : Handle)

/-- What follows an attempt: the next one, or the verdict. -/
def follow (retries attempt : Nat) : Except Fault Unit × World σ → Verdict × World σ
  | (.error (.timeout span), v) =>
    match retries with
    | 0 => judge host h attempt (.error (.timeout span), v)
    | retries + 1 => v.pingWithRetries host h retries (attempt + 1)
  | pinged => judge host h attempt pinged

theorem pingWithRetries_follow (w : World σ) (retries attempt : Nat) :
    w.pingWithRetries host h retries attempt =
      follow host h retries attempt (w.verifyAlive host h w.settings.pingTimeout) := by
  rw [pingWithRetries]
  rcases w.verifyAlive host h w.settings.pingTimeout with ⟨result, v⟩
  cases result with
  | ok => rfl
  | error cause =>
    cases cause with
    | timeout span =>
      cases retries with
      | zero => rfl
      | succ retries => rfl
    | _ => rfl

theorem course_follow {v : World σ} (gentle : host.GentleFrom v) (retries attempt : Nat)
    (result : Except Fault Unit) :
    Course host.toProcessControl v (follow host h retries attempt (result, v)).2 := by
  unfold follow
  split
  next again =>
    cases again
    cases retries with
    | zero => exact course_judge host h v attempt _
    | succ retries => exact course_pingWithRetries host h v gentle retries _
  · exact course_judge host h v attempt result

end

namespace Twin

variable {t t' : Link → Bytes → World σ → Except IoFault Unit × World σ} {w w' : World σ}

theorem send (twin : Twin alike o past w w') (attuned : Attuned control alike o past t t')
    (h : Handle) (channel : Channel) (m : Message) :
    Matched alike o past (w.send ⟨control, t⟩ h channel (m.later (o h)))
      (w'.send ⟨control, t'⟩ h channel m) := by
  unfold World.send
  cases channel.link with
  | none => exact fun _ ↦ ⟨rfl, twin⟩
  | some link =>
    obtain ⟨fault, failed, failed'⟩ | ⟨frame, frame', fits, fits'⟩ :=
      Wire.Frame.encode_later (o h) m channel.stream
    · rw [failed, failed']
      exact fun _ ↦ ⟨rfl, twin⟩
    rw [fits, fits']
    let d : Dispatch := ⟨h, link, m.later (o h), channel.stream, frame⟩
    let d' : Dispatch := ⟨h, link, m, channel.stream, frame'⟩
    have echoes : d.Echoes (o d.owner) d' := ⟨rfl, rfl, rfl, rfl, fits, fits'⟩
    have taken := attuned.same echoes twin
    dsimp only [d, d'] at taken ⊢
    revert taken
    rcases t link frame _ with ⟨answer, v⟩
    rcases t' link frame' _ with ⟨answer', v'⟩
    intro taken few
    obtain ⟨rfl, after⟩ : answer = answer' ∧ Twin alike o past v v' := taken (by
      cases answer <;> exact few)
    cases answer with
    | error fault => exact ⟨rfl, after⟩
    | ok => exact ⟨rfl, after.note (.accepted echoes)⟩

theorem take (twin : Twin alike o past w w') (h : Handle) (kind : PayloadKind)
    (content : Option Bytes) :
    Twin alike o past (w.modify h (Proxy.modify (Session.setStaged kind content)))
      (w'.modify h (Proxy.modify (Session.setStaged kind content))) := by
  refine twin.modify h (fun s createdAt ↦ s.setStaged_later createdAt kind content) fun s ↦ ?_
  cases kind <;> exact List.Subset.refl _

theorem restore (twin : Twin alike o past w w') (h : Handle) (kind : PayloadKind)
    (content : Bytes) :
    Twin alike o past (w.restore h kind content) (w'.restore h kind content) := by
  refine twin.modify h (fun s createdAt ↦ ?_) fun s ↦ ?_
  · have staged : (s.later (o h) createdAt).staged kind = s.staged kind := by cases kind <;> rfl
    rw [staged, Session.setStaged_later]
    split
    · rfl
    · rfl
  · split
    · cases kind <;> exact List.Subset.refl _
    · exact List.Subset.refl _

theorem sendStaged (twin : Twin alike o past w w') (attuned : Attuned control alike o past t t')
    (h : Handle) (kind : PayloadKind) :
    Matched alike o past (w.sendStaged ⟨control, t⟩ h kind)
      (w'.sendStaged ⟨control, t'⟩ h kind) := by
  have channel := twin.read h Session.channel fun _ _ _ ↦ rfl
  have staged := twin.read h (Session.staged · kind) fun _ _ _ ↦ by cases kind <;> rfl
  unfold World.sendStaged
  dsimp only at staged ⊢
  rw [channel, staged]
  cases (w'.session h).staged kind with
  | none => exact fun _ ↦ ⟨rfl, twin⟩
  | some content =>
    have taken : Twin alike o past
        (if kind = .requirements then w
          else w.modify h (Proxy.modify (Session.setStaged kind none)))
        (if kind = .requirements then w'
          else w'.modify h (Proxy.modify (Session.setStaged kind none))) := by
      split
      · exact twin
      · exact twin.take h kind none
    have sent := taken.send attuned h (w'.session h).channel (.staged kind content)
    dsimp only [Message.later] at sent ⊢
    revert sent
    rcases World.send ⟨control, t⟩ h _ _ _ with ⟨result, v⟩
    rcases World.send ⟨control, t'⟩ h _ _ _ with ⟨result', v'⟩
    intro sent few
    have kept : Few o v := by
      cases result with
      | ok => exact few
      | error fault =>
        dsimp only at few
        split at few
        · exact few
        · exact few.of_modify rfl
    obtain ⟨rfl, after⟩ : result = result' ∧ Twin alike o past v v' := sent kept
    cases result with
    | ok => exact ⟨rfl, after⟩
    | error fault =>
      refine ⟨rfl, ?_⟩
      dsimp only
      split
      · exact after
      · exact after.restore h kind content

theorem requestShutdown (twin : Twin alike o past w w')
    (attuned : Attuned control alike o past t t') (h : Handle) (delay : Duration) (enable : Bool) :
    Matched alike o past (w.requestShutdown ⟨control, t⟩ h delay enable)
      (w'.requestShutdown ⟨control, t'⟩ h delay enable) := by
  have channel := twin.read h Session.channel fun _ _ _ ↦ rfl
  have intended := (twin.modify h (f := fun s ↦
    { s with shutdown := true, intent := some ⟨delay, enable, w'.now⟩ }) (fun _ _ ↦ rfl)
    fun _ ↦ List.Subset.refl _).enter (.requested h ⟨delay, enable, w'.now⟩) trivial
  unfold World.requestShutdown
  dsimp only
  rw [channel, twin.now]
  split
  · exact fun _ ↦ ⟨rfl, intended⟩
  · exact intended.send attuned h _ (.shutdownTimer delay.seconds enable)

theorem setInflate (twin : Twin alike o past w w') (attuned : Attuned control alike o past t t')
    (h : Handle) (factor : Int32) (sendOver : Bool) :
    Matched alike o past (w.setInflate ⟨control, t⟩ h factor sendOver)
      (w'.setInflate ⟨control, t'⟩ h factor sendOver) := by
  have channel := twin.read h Session.channel fun _ _ _ ↦ rfl
  have recorded := twin.modify h (f := fun s ↦ { s with inflate := factor }) (fun _ _ ↦ rfl)
    fun _ ↦ List.Subset.refl _
  unfold World.setInflate
  dsimp only
  rw [channel]
  split
  · exact recorded.send attuned h _ (.inflate factor)
  · exact fun _ ↦ ⟨rfl, recorded⟩

theorem dropPing (twin : Twin alike o past w w') (h : Handle) (ping : Ping) :
    Twin alike o past (w.modify h (Proxy.dropPing (ping.later (o h))))
      (w'.modify h (Proxy.dropPing ping)) :=
  twin.put ((twin.proxies h).dropPing ping)

theorem concludePing (twin : Twin alike o past w w') (h : Handle) (ping : Ping)
    (timeout : Duration) : SameAnswer (Twin alike o past)
      (w.concludePing h (ping.later (o h)) timeout) (w'.concludePing h ping timeout) := by
  have awaited := ((twin.proxies h).awaitPing ping).1
  rw [concludePing_eq, concludePing_eq, awaited]
  exact ⟨rfl, twin.dropPing h ping⟩

theorem verifyAlive (twin : Twin alike o past w w') (attuned : Attuned control alike o past t t')
    (h : Handle) (timeout : Duration) :
    Matched alike o past (w.verifyAlive ⟨control, t⟩ h timeout)
      (w'.verifyAlive ⟨control, t'⟩ h timeout) := by
  have valid := twin.read h Session.valid fun _ _ _ ↦ rfl
  have terminated := twin.read h Session.terminated fun _ _ _ ↦ rfl
  have linked := twin.read h Session.link fun _ _ _ ↦ rfl
  have channel := twin.read h Session.channel fun _ _ _ ↦ rfl
  obtain ⟨later, opened⟩ := (twin.proxies h).openPing
  unfold World.verifyAlive
  dsimp only
  rw [valid, terminated, linked, channel, later, Ping.id_later]
  split
  · exact fun _ ↦ ⟨rfl, twin⟩
  split
  · exact fun _ ↦ ⟨rfl, twin⟩
  generalize (w'.proxy h).openPing.1 = ping
  have sent := (twin.put opened).send attuned h (w'.session h).channel (.ping ping.id)
  dsimp only [Message.later] at sent
  revert sent
  rcases World.send ⟨control, t⟩ h _ _ _ with ⟨result, v⟩
  rcases World.send ⟨control, t'⟩ h _ _ _ with ⟨result', v'⟩
  intro sent few
  -- Once the ping is on its way no other is opened.
  have kept : Few o v := by
    cases result with
    | error fault => exact few.of_modify rfl
    | ok =>
      dsimp only at few
      rw [concludePing_eq] at few
      exact few.of_modify rfl
  obtain ⟨rfl, after⟩ : result = result' ∧ Twin alike o past v v' := sent kept
  cases result with
  | error fault => exact ⟨rfl, after.dropPing h ping⟩
  | ok => exact after.concludePing h ping timeout

/-! ### Rounds of the pool -/

theorem condemn (twin : Twin alike o past w w') (respects : control.Respects alike) (h : Handle)
    (cause : Fault) :
    SameAnswer (Twin alike o past) (w.condemn control h cause) (w'.condemn control h cause) := by
  obtain ⟨signal, after⟩ := twin.terminate respects h
  exact ⟨congrArg (Verdict.terminated cause) signal, after⟩

theorem judge (twin : Twin alike o past w w') (respects : control.Respects alike) (h : Handle)
    (attempt : Nat) (result : Except Fault Unit) :
    SameAnswer (Twin alike o past) (judge ⟨control, t⟩ h attempt (result, w))
      (judge ⟨control, t'⟩ h attempt (result, w')) := by
  unfold World.judge
  cases result with
  | ok => exact ⟨rfl, twin⟩
  | error cause =>
    dsimp only
    split
    · exact ⟨rfl, twin⟩
    · exact twin.condemn respects h cause

theorem follow (twin : Twin alike o past w w') (respects : control.Respects alike) (h : Handle)
    (retries attempt : Nat) (result : Except Fault Unit)
    (again : ∀ fewer, fewer < retries → Matched alike o past
      (w.pingWithRetries ⟨control, t⟩ h fewer (attempt + 1))
      (w'.pingWithRetries ⟨control, t'⟩ h fewer (attempt + 1))) :
    Matched alike o past (follow ⟨control, t⟩ h retries attempt (result, w))
      (follow ⟨control, t'⟩ h retries attempt (result, w')) := by
  have judged : Matched alike o past (World.judge ⟨control, t⟩ h attempt (result, w))
      (World.judge ⟨control, t'⟩ h attempt (result, w')) :=
    fun _ ↦ twin.judge respects h attempt result
  cases result with
  | ok => exact judged
  | error cause =>
    cases cause with
    | timeout span =>
      cases retries with
      | zero => exact judged
      | succ retries => exact again retries (Nat.lt_succ_self retries)
    | _ => exact judged

theorem pingWithRetries (twin : Twin alike o past w w') (respects : control.Respects alike)
    (attuned : Attuned control alike o past t t') (h : Handle) (retries attempt : Nat) :
    Matched alike o past (w.pingWithRetries ⟨control, t⟩ h retries attempt)
      (w'.pingWithRetries ⟨control, t'⟩ h retries attempt) := by
  -- Another attempt comes with fewer retries, from the worlds in which the last one ended.
  induction retries using Nat.strongRecOn generalizing w w' attempt with
  | ind retries ih =>
    have pinged := twin.verifyAlive attuned h w.settings.pingTimeout
    have before := course_verifyAlive ⟨control, t⟩ h w (attuned.orderly.gentleFrom w)
      w.settings.pingTimeout
    rw [pingWithRetries_follow, pingWithRetries_follow, ← twin.settings]
    revert pinged before
    rcases w.verifyAlive ⟨control, t⟩ h w.settings.pingTimeout with ⟨result, v⟩
    rcases w'.verifyAlive ⟨control, t'⟩ h w.settings.pingTimeout with ⟨result', v'⟩
    intro pinged before few
    have rest := course_follow ⟨control, t⟩ h (attuned.orderly.gentleFrom v) retries attempt result
    obtain ⟨rfl, after⟩ : result = result' ∧ Twin alike o past v v' :=
      pinged (few.earlier twin (.of_course before) (.of_course rest))
    exact after.follow respects h retries attempt result
      (fun fewer less ↦ ih fewer less after (attempt + 1)) few

theorem check (twin : Twin alike o past w w') (respects : control.Respects alike)
    (attuned : Attuned control alike o past t t') (h : Handle) :
    Matched alike o past (w.check ⟨control, t⟩ h) (w'.check ⟨control, t'⟩ h) := by
  have recorded := twin.read h Session.pid fun _ _ _ ↦ rfl
  unfold World.check
  dsimp only
  rw [recorded, twin.settings]
  cases (w'.session h).pid with
  | none => exact twin.pingWithRetries respects attuned h _ 1
  | some pid =>
    obtain ⟨found, v, v', called, called', probed⟩ :=
      (twin.call (.probed h pid) trivial (respects.alive pid)).exists_eq
    dsimp only
    rw [called, called']
    cases found with
    | false => exact fun _ ↦ probed.condemn respects h .noSuchProcess
    | true => exact probed.pingWithRetries respects attuned h _ 1

theorem sweepOver (twin : Twin alike o past w w') (respects : control.Respects alike)
    (attuned : Attuned control alike o past t t') (hs : List Handle) :
    Matched alike o past (w.sweepOver ⟨control, t⟩ hs) (w'.sweepOver ⟨control, t'⟩ hs) := by
  induction hs generalizing w w' with
  | nil => exact fun _ ↦ ⟨rfl, twin⟩
  | cons h hs ih =>
    have valid := twin.read h Session.valid fun _ _ _ ↦ rfl
    have id := twin.read h Session.id fun _ _ _ ↦ rfl
    rw [World.sweepOver, World.sweepOver, valid, id]
    split
    · intro few
      have before := course_check ⟨control, t⟩ h w (attuned.orderly.gentleFrom w)
      have rest := course_sweepOver ⟨control, t⟩ (w.check ⟨control, t⟩ h).2
        (attuned.orderly.gentleFrom _) hs
      have kept := few.earlier twin (.of_course before) (.of_course rest)
      obtain ⟨verdict, v, v', checked, checked', after⟩ :=
        (twin.check respects attuned h kept).exists_eq
      rw [checked] at few
      obtain ⟨report, after⟩ := ih after few
      rw [checked, checked']
      exact ⟨congrArg (((w'.session h).id, verdict) :: ·) report, after⟩
    · exact ih twin

theorem sweep (twin : Twin alike o past w w') (respects : control.Respects alike)
    (attuned : Attuned control alike o past t t') :
    Matched alike o past (w.sweep ⟨control, t⟩) (w'.sweep ⟨control, t'⟩) := by
  unfold World.sweep
  rw [twin.active]
  exact twin.sweepOver respects attuned _

theorem isDue (twin : Twin alike o past w w') (now : Instant) (h : Handle) :
    w.isDue now h = w'.isDue now h := by
  have intent := twin.read h Session.intent fun _ _ _ ↦ rfl
  unfold World.isDue
  rw [intent]

theorem due (twin : Twin alike o past w w') (now : Instant) : w.due now = w'.due now := by
  have among (hs : List Handle) : w.dueAmong now hs = w'.dueAmong now hs := by
    induction hs with
    | nil => rfl
    | cons h hs ih =>
      have valid := twin.read h Session.valid fun _ _ _ ↦ rfl
      rw [dueAmong, dueAmong, twin.isDue, ih, valid]
  rw [World.due, World.due, twin.active, among]

theorem terminateAll (twin : Twin alike o past w w') (respects : control.Respects alike)
    (hs : List Handle) :
    SameAnswer (Twin alike o past) (w.terminateAll control hs) (w'.terminateAll control hs) := by
  induction hs generalizing w w' with
  | nil => exact ⟨rfl, twin⟩
  | cons h hs ih =>
    have id := twin.read h Session.id fun _ _ _ ↦ rfl
    obtain ⟨outcome, v, v', ended, ended', after⟩ := (twin.terminate respects h).exists_eq
    obtain ⟨report, after⟩ := ih after
    rw [World.terminateAll, World.terminateAll, id, ended, ended']
    exact ⟨congrArg (((w'.session h).id, outcome) :: ·) report, after⟩

theorem runDue (twin : Twin alike o past w w') (respects : control.Respects alike)
    (now : Instant) :
    SameAnswer (Twin alike o past) (w.runDue control now) (w'.runDue control now) := by
  unfold World.runDue
  rw [twin.due]
  split
  · exact ⟨rfl, twin⟩
  next hs _ =>
    obtain ⟨report, after⟩ := twin.terminateAll respects hs
    exact ⟨congrArg Except.ok report, after⟩

theorem elapse (twin : Twin alike o past w w') (span : Duration) : Twin alike o past
    { w with now := w.now.later span } { w' with now := w'.now.later span } :=
  ⟨twin.proxies, twin.inUse, twin.environment, congrArg (Instant.later · span) twin.now, twin.today,
    twin.settings, twin.unmade, twin.journal⟩

/-! ### Operations -/

theorem answered {f : α → Answer}
    {r r' : α × World σ} (same : SameAnswer (Twin alike o past) r r') :
    (answering f r).1 = ((answering f r').1).later 0 ∧
      Twin alike o past (answering f r).2 (answering f r').2 := by
  refine ⟨?_, same.2⟩
  rw [Answer.later_zero]
  exact congrArg f same.1

/-- An operation is answered alike in twin worlds, and leaves them twins. -/
theorem perform (twin : Twin alike o past w w') (respects : control.Respects alike)
    (attuned : Attuned control alike o past t t') {op op' : Operation} (echoes : op.Echoes o op')
    (few : Few o (w.perform ⟨control, t⟩ op).2) :
    (w.perform ⟨control, t⟩ op).1 = (w'.perform ⟨control, t'⟩ op').1.later (op.offset o) ∧
      Twin alike o past (w.perform ⟨control, t⟩ op).2 (w'.perform ⟨control, t'⟩ op').2 := by
  cases echoes with
  | edit echoes =>
    obtain ⟨answer, after⟩ := twin.edit echoes
    exact ⟨congrArg Answer.edited answer, after⟩
  | send h m =>
    have channel := twin.read h Session.channel fun _ _ _ ↦ rfl
    simp only [World.perform] at few ⊢
    rw [channel] at few ⊢
    exact answered (twin.send attuned h _ m few)
  | same pingless =>
    cases op with
    | edit | send => exact pingless.elim
    | reset h => exact ⟨rfl, twin.reset h⟩
    | terminate h => exact answered (twin.terminate respects h)
    | setServer h pid => exact ⟨rfl, twin.setServer respects h pid⟩
    | changePriority h delta => exact answered (twin.changePriority respects h delta)
    | setRoundRobin h on => exact answered (twin.setRoundRobin respects h on)
    | sendStaged h kind => exact answered (twin.sendStaged attuned h kind few)
    | requestShutdown h delay enable =>
      exact answered (twin.requestShutdown attuned h delay enable few)
    | setInflate h factor sendOver => exact answered (twin.setInflate attuned h factor sendOver few)
    | verifyAlive h timeout => exact answered (twin.verifyAlive attuned h timeout few)
    | acquire => exact answered twin.acquire
    | release id => exact answered (twin.release id)
    | moveClient source target slot => exact answered (twin.moveClient source target slot)
    | sweep => exact answered (twin.sweep respects attuned few)
    | runDue now => exact answered (twin.runDue respects now)
    | elapse span => exact ⟨rfl, twin.elapse span⟩

end Twin

end World

end Supervisor
