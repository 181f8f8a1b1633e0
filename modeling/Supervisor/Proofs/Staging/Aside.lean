import Supervisor.Proofs.Staging.Slot

/-!
# What leaves the slots alone

`World.Still` says that on the way from one world to another nothing was staged, cleared or
delivered for one proxy, resets aside. Every operation is still that is no staging operation of the
proxy (`Operation.Stages`), as long as the links are (`World.Still.perform`). So are the runs of
such operations, however they nest (`Avoids.still`).
-/

set_option autoImplicit false
set_option relaxedAutoImplicit false

namespace Supervisor

variable {σ : Type}

/-- The edit stages a payload or clears one. -/
def Edit.Stages : Edit → Prop
  | .stage _ _ | .unstage _ => True
  | _ => False

/-- The operation stages, clears or sends a payload of the proxy. -/
def Operation.Stages (h : Handle) : Operation → Prop
  | .edit k e => k = h ∧ e.Stages
  | .send k m => k = h ∧ ∃ kind content, m = .staged kind content
  | .sendStaged k _ => k = h
  | _ => False

/-- The world comes about by operations of which none is to be avoided, not even while a frame is
under way. -/
inductive Avoids (avoided : Operation → Prop) (control : ProcessControl σ) :
    World σ → World σ → Prop
  | refl (w : World σ) : Avoids avoided control w w
  | perform {w w' : World σ} (reached : Avoids avoided control w w') (op : Operation)
      (other : ¬ avoided op)
      (transmit : Link → Bytes → World σ → Except IoFault Unit × World σ)
      (during : ∀ link frame v, Avoids avoided control v (transmit link frame v).2) :
      Avoids avoided control w (w'.perform ⟨control, transmit⟩ op).2
  | change {w w' : World σ} (reached : Avoids avoided control w w') (environment : σ) :
      Avoids avoided control w { w' with environment := environment }
  | remark {w w' : World σ} (reached : Avoids avoided control w w')
      (outcome : Except Fault Unit) : Avoids avoided control w (w'.note (.noted outcome))

/-- Whatever else happens while a link has a frame, the operations to be avoided do not. -/
def Host.Avoids (host : Host σ) (avoided : Operation → Prop) : Prop :=
  ∀ link frame w, Supervisor.Avoids avoided host.toProcessControl w (host.transmit link frame w).2

/-! ### Staged payloads of a proxy -/

namespace Proxy

variable (p : Proxy) (kind : PayloadKind)

theorem staged_openPing : p.openPing.2.session.staged kind = p.session.staged kind := by
  cases kind <;> rfl

theorem staged_deliver (id : PingId) :
    (p.deliver id).2.session.staged kind = p.session.staged kind := by
  unfold deliver
  split
  · rfl
  · cases kind <;> rfl

theorem staged_handle (m : Message) : (p.handle m).session.staged kind = p.session.staged kind := by
  cases m with
  | pingReply id => exact p.staged_deliver kind id
  | _ => cases kind <;> rfl

theorem staged_route (source : Wire.Source) :
    (p.route source).2.session.staged kind = p.session.staged kind := by
  rw [route_eq]
  generalize (Wire.Frame.readAll source).1 = frames
  induction frames generalizing p with
  | nil => rfl
  | cons frame frames ih => exact (ih _).trans (p.staged_handle kind frame.1)

theorem staged_awaitPing (ping : Ping) :
    (p.awaitPing ping).2.session.staged kind = p.session.staged kind := by
  unfold awaitPing
  split
  · rfl
  split
  · rfl
  · rfl

end Proxy

theorem Edit.staged_apply {e : Edit} (other : ¬ e.Stages) (p : Proxy) (kind : PayloadKind) :
    (e.apply p).2.session.staged kind = p.session.staged kind := by
  cases e with
  | stage | unstage => exact absurd trivial other
  | setLabel label text => cases label <;> cases kind <;> rfl
  | setValid value =>
    show (p.session.setValid value).staged kind = _
    unfold Session.setValid
    split
    · split
      · rfl
      · cases kind <;> rfl
    · cases kind <;> rfl
  | awaitPing ping =>
    simp only [apply, Proxy.awaitCallersPing]
    split
    · exact p.staged_awaitPing kind ping
    · rfl
  | dropPing ping =>
    simp only [apply, Proxy.dropCallersPing]
    split
    · cases kind <;> rfl
    · rfl
  | deliver id => exact p.staged_deliver kind id
  | handle m => exact p.staged_handle kind m
  | route source => exact p.staged_route kind source
  | _ => cases kind <;> rfl

/-! ### Still changes -/

namespace World

/-- On the way no payload of the proxy was staged, cleared or delivered. The proxy may have been
reset, and anything else may have happened. -/
def Still (h : Handle) (w w' : World σ) : Prop :=
  ∃ news, w'.journal = news ++ w.journal ∧ ∀ kind, slotChanges h kind news = [] ∧
    (w'.slot h kind = w.slot h kind ∨ .fresh h ∈ news ∧ w'.slot h kind = none)

end World

/-- The links are still whatever world they are handed. -/
def Host.StillFor (host : Host σ) (h : Handle) : Prop :=
  ∀ link frame w, World.Still h w (host.transmit link frame w).2

namespace World.Still

variable {h k : Handle} {u v w : World σ}

theorem refl (h : Handle) (w : World σ) : w.Still h w :=
  ⟨[], rfl, fun _ ↦ ⟨rfl, .inl rfl⟩⟩

theorem trans (first : u.Still h v) (second : v.Still h w) : u.Still h w := by
  obtain ⟨early, before, slots⟩ := first
  obtain ⟨late, after, slots'⟩ := second
  refine ⟨late ++ early, by rw [after, before, List.append_assoc], fun kind ↦ ⟨?_, ?_⟩⟩
  · rw [slotChanges_append, (slots kind).1, (slots' kind).1, List.append_nil]
  · rcases (slots' kind).2 with same' | ⟨reset, gone⟩
    · rw [same']
      exact (slots kind).2.imp_right (And.imp_left (List.mem_append_right _))
    · exact .inr ⟨List.mem_append_left _ reset, gone⟩

theorem slotStep (still : u.Still h v) (kind : PayloadKind) : u.SlotStep h kind v := by
  obtain ⟨news, journal, slots⟩ := still
  refine ⟨news, journal, ?_⟩
  rw [(slots kind).1]
  exact .of_still (slots kind).2

/-- Only the proxies and the journal matter. -/
theorem of_eq (journal : v.journal = w.journal) (registry : v.registry = w.registry) :
    w.Still h v := by
  refine ⟨[], journal, fun kind ↦ ⟨rfl, .inl ?_⟩⟩
  rw [slot, session, proxy, registry]
  rfl

theorem note {e : Event} (quiet : ∀ kind, e.slotChange? h kind = none) (w : World σ) :
    w.Still h (w.note e) :=
  ⟨[e], rfl, fun kind ↦ ⟨slotChanges_eq_nil.mpr (by simpa using quiet kind), .inl rfl⟩⟩

theorem call {α : Type} {e : Event} (quiet : ∀ kind, e.slotChange? h kind = none)
    (f : σ → α × σ) (w : World σ) : w.Still h (w.call e f).2 :=
  (note quiet w).trans (.of_eq rfl rfl)

theorem put {p : Proxy} (same : h = k → ∀ kind, p.session.staged kind = w.slot h kind) :
    w.Still h (w.put k p) := by
  refine ⟨[], rfl, fun kind ↦ ⟨rfl, .inl ?_⟩⟩
  by_cases own : h = k
  · rw [← same own kind, slot, session, own, proxy_put_self]
  · exact congrArg (·.session.staged kind) (proxy_put_of_ne w _ own)

theorem modify {f : Proxy → Proxy}
    (same : ∀ p kind, (f p).session.staged kind = p.session.staged kind) (k : Handle)
    (w : World σ) : w.Still h (w.modify k f) :=
  put fun own kind ↦ by rw [same, own]; rfl

theorem edit {e : Edit} (other : ¬ (k = h ∧ e.Stages)) (w : World σ) :
    w.Still h (w.edit k e).2 := by
  have quiet (kind : PayloadKind) : (Event.edited k e).slotChange? h kind = none := by
    cases e with
    | stage | unstage => exact if_neg fun here ↦ other ⟨here.1, trivial⟩
    | _ => rfl
  have applied : w.Still h (w.put k (e.apply (w.proxy k)).2) := put fun own kind ↦ by
    rw [Edit.staged_apply fun stages ↦ other ⟨own.symm, stages⟩, own]
    rfl
  exact applied.trans (note quiet _)

/-- A proxy starts as new. -/
theorem fresh {p : Proxy} (empty : ∀ kind, p.session.staged kind = none) (k : Handle)
    (w : World σ) : w.Still h ((w.put k p).note (.fresh k)) := by
  refine ⟨[.fresh k], rfl, fun kind ↦ ⟨rfl, ?_⟩⟩
  by_cases own : h = k
  · rw [← own]
    refine .inr ⟨List.mem_singleton_self _, ?_⟩
    rw [slot, session, proxy_note, proxy_put_self, empty]
  · exact .inl (congrArg (·.session.staged kind) (proxy_put_of_ne w _ own))

theorem reset (k : Handle) (w : World σ) : w.Still h (w.reset k) :=
  fresh (fun kind ↦ by cases kind <;> rfl) k w

/-! ### Pool and processes -/

theorem setId (k : Handle) (id : SessionId) (w : World σ) : w.Still h (w.setId k id) :=
  modify (fun _ kind ↦ by cases kind <;> rfl) k w

theorem acquire (w : World σ) : w.Still h w.acquire.2 := by
  unfold World.acquire
  dsimp only
  have handed (v : World σ) (slot : Nat) (inUse : List Bool) (fresh : w.Still h v) :
      w.Still h { (v.setId (.pooled slot) (Int16.ofNat slot)).note (.acquired slot) with
        inUse := inUse } :=
    ((fresh.trans (setId _ _ v)).trans (note (fun _ ↦ rfl) _)).trans (.of_eq rfl rfl)
  split
  · exact handed _ _ _ (reset _ w)
  split
  · exact refl h w
  · exact handed _ _ _ (fresh (fun kind ↦ by cases kind <;> rfl) _ w)

theorem release (id : SessionId) (w : World σ) : w.Still h (w.release id).2 := by
  unfold World.release
  split
  · exact refl h w
  · exact ((reset _ w).trans (note (fun _ ↦ rfl) _)).trans (.of_eq rfl rfl)

theorem moveClient (source target : SessionId) (slot : Nat) (w : World σ) :
    w.Still h (w.moveClient source target slot).2 := by
  have seats (k : Handle) (clients : Slots) (v : World σ) :
      v.Still h (v.modify k (Proxy.modify fun s ↦ { s with clients := clients })) :=
    modify (fun _ kind ↦ by cases kind <;> rfl) k v
  unfold World.moveClient
  split
  · exact refl h w
  split
  · exact refl h w
  split
  · exact refl h w
  split
  · exact refl h w
  split
  · exact refl h w
  · exact (seats _ _ w).trans (seats _ _ _)

variable (control : ProcessControl σ)

theorem terminate (k : Handle) (w : World σ) : w.Still h (w.terminate control k).2 := by
  unfold World.terminate
  dsimp only
  split
  · exact refl h w
  have marked : w.Still h ((w.modify k Proxy.markTerminated).note (.ended k)) :=
    (modify (fun _ kind ↦ by cases kind <;> rfl) k w).trans (note (fun _ ↦ rfl) _)
  refine (marked.trans ?_).trans (modify (fun _ kind ↦ by cases kind <;> rfl) k _)
  split
  · exact refl h _
  · exact call (fun _ ↦ rfl) _ _

theorem setServer (k : Handle) (pid : Pid) (w : World σ) : w.Still h (w.setServer control k pid) :=
  (((call (fun _ ↦ rfl) (control.schedule pid) w).trans
    (call (fun _ ↦ rfl) (control.priority pid) _)).trans
      (modify (fun _ kind ↦ by cases kind <;> rfl) k _)).trans (note (fun _ ↦ rfl) _)

theorem changePriority (k : Handle) (delta : Int32) (w : World σ) :
    w.Still h (w.changePriority control k delta).2 := by
  unfold World.changePriority
  split
  · exact refl h w
  next pid _ =>
    have read : w.Still h (w.call (.priorityRead k pid) (control.priority pid)).2 :=
      call (fun _ ↦ rfl) _ w
    split
    next failed =>
      rw [failed] at read
      exact read
    next current v found =>
      rw [found] at read
      have set : w.Still h (v.call (.prioritySet k pid (addPriority current delta))
          (control.setPriority pid (addPriority current delta))).2 :=
        read.trans (call (fun _ ↦ rfl) _ v)
      dsimp only
      split
      next failed =>
        rw [failed] at set
        exact set
      next done =>
        rw [done] at set
        exact set

theorem setRoundRobin (k : Handle) (on : Bool) (w : World σ) :
    w.Still h (w.setRoundRobin control k on).2 := by
  unfold World.setRoundRobin
  dsimp only
  split
  · exact refl h w
  next pid _ =>
    generalize (if on = true then _ else _ : Schedule) = target
    have set : w.Still h (w.call (.scheduleSet k pid target) (control.setSchedule pid target)).2 :=
      call (fun _ ↦ rfl) _ w
    split
    next failed =>
      rw [failed] at set
      exact set
    next done =>
      rw [done] at set
      exact set.trans (modify (fun _ kind ↦ by cases kind <;> rfl) k _)

theorem terminateAll (hs : List Handle) (w : World σ) :
    w.Still h (w.terminateAll control hs).2 := by
  induction hs generalizing w with
  | nil => exact refl h w
  | cons k hs ih => exact (terminate control k w).trans (ih _)

theorem runDue (now : Instant) (w : World σ) : w.Still h (w.runDue control now).2 := by
  unfold World.runDue
  split
  · exact refl h w
  · exact terminateAll control _ w

end World.Still

/-! ### Sending -/

namespace World

/-- Whoever reads a frame finds in it what was written. -/
theorem payload?_of_encode {d : Dispatch} {m : Message} {stream : StreamId}
    (encoded : Wire.Frame.encode m stream = .ok d.frame) (kind : PayloadKind) :
    d.payload? kind = m.payload? kind := by
  have gives : (Wire.Source.ofBytes d.frame).Gives (d.frame ++ []) := by
    rw [List.append_nil]
    exact Wire.Source.gives_ofBytes d.frame
  obtain ⟨_, -, found⟩ := Wire.Frame.read_frame encoded gives
  rw [Dispatch.payload?, found]

namespace Still

variable {host : Host σ} {h : Handle}

/-- To send a message is still if it is no payload of the proxy. -/
theorem send (still : host.StillFor h) {k : Handle} {m : Message}
    (foreign : k = h → ∀ kind, m.payload? kind = none) (channel : Channel) (w : World σ) :
    w.Still h (w.send host k channel m).2 := by
  cases found : w.offer? k channel m with
  | none =>
    obtain ⟨_, failed⟩ := send_of_no_offer host found
    rw [failed]
    exact refl h w
  | some f =>
    obtain ⟨owner, encoded, handed⟩ := offer?_eq_some found
    have flown : w.Still h (host.transmit f.dispatch.link f.dispatch.frame f.handed).2 := by
      rw [handed]
      exact (note (fun _ ↦ rfl) w).trans (still _ _ _)
    have quiet (kind : PayloadKind) : (Event.accepted f.dispatch).slotChange? h kind = none := by
      rw [Event.slotChange?, owner]
      split
      next own => rw [payload?_of_encode encoded, foreign own, Option.map_none]
      · rfl
    rw [send_of_offer found (Prod.eta _).symm]
    unfold acknowledge
    split
    · exact flown.trans (note quiet _)
    · exact flown

/-- The payloads of other proxies are none of this one. -/
theorem sendStaged (still : host.StillFor h) {k : Handle} (other : k ≠ h) (kind : PayloadKind)
    (w : World σ) : w.Still h (w.sendStaged host k kind).2 := by
  have elsewhere (f : Proxy → Proxy) (v : World σ) : v.Still h (v.modify k f) :=
    put fun own ↦ absurd own.symm other
  unfold World.sendStaged
  dsimp only
  split
  · exact refl h w
  next content _ =>
    have taken : w.Still h (if kind = .requirements then w
        else w.modify k (Proxy.modify (Session.setStaged kind none))) := by
      split
      · exact refl h w
      · exact elsewhere _ w
    have sent := taken.trans (send still (absurd · other) (w.session k).channel
      (m := .staged kind content) _)
    split
    next done =>
      rw [done] at sent
      exact sent
    next failed =>
      rw [failed] at sent
      dsimp only
      split
      · exact sent
      · exact sent.trans (elsewhere _ _)

theorem requestShutdown (still : host.StillFor h) (k : Handle) (delay : Duration) (enable : Bool)
    (w : World σ) : w.Still h (w.requestShutdown host k delay enable).2 := by
  have intended : w.Still h (w.intend k delay enable) :=
    (modify (fun _ kind ↦ by cases kind <;> rfl) k w).trans (note (fun _ ↦ rfl) _)
  unfold World.requestShutdown
  dsimp only
  split
  · exact intended
  · exact intended.trans (send still (fun _ _ ↦ rfl) _ _)

theorem setInflate (still : host.StillFor h) (k : Handle) (factor : Int32) (sendOver : Bool)
    (w : World σ) : w.Still h (w.setInflate host k factor sendOver).2 := by
  have kept : w.Still h (w.inflate k factor) := modify (fun _ kind ↦ by cases kind <;> rfl) k w
  unfold World.setInflate
  dsimp only
  split
  · exact kept.trans (send still (fun _ _ ↦ rfl) _ _)
  · exact kept

theorem verifyAlive (still : host.StillFor h) (k : Handle) (timeout : Duration) (w : World σ) :
    w.Still h (w.verifyAlive host k timeout).2 := by
  have dropped (ping : Ping) (v : World σ) : v.Still h (v.modify k (Proxy.dropPing ping)) :=
    modify (fun _ kind ↦ by cases kind <;> rfl) k v
  unfold World.verifyAlive
  dsimp only
  split
  · exact refl h w
  split
  · exact refl h w
  have opened : w.Still h (w.put k (w.proxy k).openPing.2) := put fun own kind ↦ by
    rw [Proxy.staged_openPing, own]
    rfl
  have sent := opened.trans (send still (k := k) (m := .ping (w.proxy k).openPing.1.id)
    (fun _ _ ↦ rfl) (w.session k).channel _)
  split
  next failed =>
    rw [failed] at sent
    exact sent.trans (dropped _ _)
  next done =>
    rw [done] at sent
    rw [concludePing_eq]
    exact sent.trans (dropped _ _)

theorem lastPing (still : host.StillFor h) (k : Handle) (retries attempt : Nat) (w : World σ) :
    w.Still h (w.lastPing host k retries attempt).2 := by
  induction retries generalizing w attempt with
  | zero => exact refl h w
  | succ retries ih =>
    have pinged : w.Still h _ := verifyAlive still k w.settings.pingTimeout w
    rw [World.lastPing]
    split
    next again =>
      rw [again] at pinged
      exact pinged.trans (ih _ _)
    · exact refl h w

theorem pingWithRetries (still : host.StillFor h) (k : Handle) (retries attempt : Nat)
    (w : World σ) : w.Still h (w.pingWithRetries host k retries attempt).2 := by
  have judged (outcome : Except Fault Unit) (v : World σ) (attempt : Nat) :
      v.Still h (judge host k attempt (outcome, v)).2 := by
    unfold judge
    cases outcome with
    | ok => exact refl h v
    | error cause =>
      dsimp only
      split
      · exact refl h v
      · exact terminate host.toProcessControl k v
  rw [pingWithRetries_eq]
  exact (lastPing still k retries attempt w).trans ((verifyAlive still k _ _).trans (judged _ _ _))

theorem check (still : host.StillFor h) (k : Handle) (w : World σ) :
    w.Still h (w.check host k).2 := by
  unfold World.check
  dsimp only
  split
  · exact pingWithRetries still k _ 1 w
  next pid _ =>
    have probed : w.Still h (w.call (.probed k pid) (host.alive pid)).2 := call (fun _ ↦ rfl) _ w
    split
    next gone =>
      rw [gone] at probed
      exact probed.trans (terminate host.toProcessControl k _)
    next there =>
      rw [there] at probed
      exact probed.trans (pingWithRetries still k _ 1 _)

theorem sweepOver (still : host.StillFor h) (hs : List Handle) (w : World σ) :
    w.Still h (w.sweepOver host hs).2 := by
  induction hs generalizing w with
  | nil => exact refl h w
  | cons k hs ih =>
    rw [World.sweepOver]
    split
    · exact (check still k w).trans (ih _)
    · exact ih w

/-- All but the staging operations of the proxy leave its slots alone. -/
theorem perform (still : host.StillFor h) {op : Operation} (other : ¬ op.Stages h) (w : World σ) :
    w.Still h (w.perform host op).2 := by
  cases op with
  | edit k e => exact edit other w
  | reset k => exact reset k w
  | terminate k => exact terminate _ k w
  | setServer k pid => exact setServer _ k pid w
  | changePriority k delta => exact changePriority _ k delta w
  | setRoundRobin k on => exact setRoundRobin _ k on w
  | send k m =>
    refine send still (fun own kind ↦ ?_) _ w
    cases m with
    | staged kind content => exact absurd ⟨own, kind, content, rfl⟩ other
    | _ => rfl
  | sendStaged k kind => exact sendStaged still other kind w
  | requestShutdown k delay enable => exact requestShutdown still k delay enable w
  | setInflate k factor sendOver => exact setInflate still k factor sendOver w
  | verifyAlive k timeout => exact verifyAlive still k timeout w
  | acquire => exact acquire w
  | release id => exact release id w
  | moveClient source target slot => exact moveClient source target slot w
  | sweep => exact sweepOver still _ w
  | runDue now => exact runDue _ now w
  | elapse span => exact .of_eq rfl rfl

end Still

end World

/-- A run without a staging operation of the proxy leaves its slots alone. -/
theorem Avoids.still {h : Handle} {control : ProcessControl σ} {w w' : World σ}
    (run : Avoids (Operation.Stages h) control w w') : w.Still h w' := by
  induction run with
  | refl w => exact .refl h w
  | perform _ op other transmit _ first during =>
    have still : Host.StillFor ⟨control, transmit⟩ h := during
    exact first.trans (.perform still other _)
  | change _ environment first => exact first.trans (.of_eq rfl rfl)
  | remark _ outcome first => exact first.trans (.note (fun _ ↦ rfl) _)

theorem Host.Avoids.stillFor {host : Host σ} {h : Handle}
    (avoids : host.Avoids (Operation.Stages h)) : host.StillFor h :=
  fun link frame w ↦ (avoids link frame w).still

end Supervisor
