import Supervisor.Proofs.Ping.VerifyAlive

/-!
# Frames under way

An operation of a session that sends has one frame under way at most. What comes before is decided
by the world in which the operation begins: whether there is a frame at all, and the world that the
link is handed with it (`World.flight?`). What comes after is little: a payload that was not sent is
put back, and a ping is given up (`World.land`). `World.perform_of_flight` puts the operation
together from these two and what the link does in between.

What the link is handed is the world that the operation has prepared (`World.prepared`), with a
frame that the message has (`Dispatch.Encoded`).
-/

set_option autoImplicit false
set_option relaxedAutoImplicit false

namespace Supervisor

/-- A frame on its way, and the world that the link is handed with it. -/
structure Flight (σ : Type) where
  dispatch : Dispatch
  handed : World σ

/-- The frame is the one that the message has. -/
def Dispatch.Encoded (d : Dispatch) : Prop :=
  Wire.Frame.encode d.message d.stream = .ok d.frame

namespace World

variable {σ : Type}

/-- The frame with which a message is sent, unless there is no link or the message fits no frame. -/
def offer? (h : Handle) (channel : Channel) (m : Message) (w : World σ) : Option (Flight σ) :=
  match channel.link, Wire.Frame.encode m channel.stream with
  | some link, .ok frame =>
    let dispatch : Dispatch := ⟨h, link, m, channel.stream, frame⟩
    some ⟨dispatch, w.note (.offered dispatch)⟩
  | _, _ => none

/-- The world in which a staged payload is sent: only requirements stay staged meanwhile. -/
def takeStaged (h : Handle) (kind : PayloadKind) (w : World σ) : World σ :=
  if kind = .requirements then w else w.modify h (Proxy.modify (Session.setStaged kind none))

/-- The world in which the worker is told of a shutdown. -/
def intend (h : Handle) (delay : Duration) (enable : Bool) (w : World σ) : World σ :=
  let intent : ShutdownIntent := ⟨delay, enable, w.now⟩
  (w.modify h (Proxy.modify fun s ↦ { s with shutdown := true, intent := some intent })).note
    (.requested h intent)

/-- The world in which the worker is told of an inflate factor. -/
def inflate (h : Handle) (factor : Int32) (w : World σ) : World σ :=
  w.modify h (Proxy.modify fun s ↦ { s with inflate := factor })

/-- The frame that an operation of one session has under way, if it comes to that. -/
def flight? (op : Operation) (w : World σ) : Option (Flight σ) :=
  match op with
  | .send h m => w.offer? h (w.session h).channel m
  | .sendStaged h kind => ((w.session h).staged kind).bind fun content ↦
      (w.takeStaged h kind).offer? h (w.session h).channel (.staged kind content)
  | .requestShutdown h delay enable =>
    (w.intend h delay enable).offer? h (w.session h).channel (.shutdownTimer delay.seconds enable)
  | .setInflate h factor sendOver =>
    if sendOver then (w.inflate h factor).offer? h (w.session h).channel (.inflate factor) else none
  | .verifyAlive h _ => (w.session h).link.bind fun link ↦
      if (w.session h).valid && !(w.session h).terminated then
        some ⟨w.pingDispatch h link, w.pinging h link⟩
      else none
  | _ => none

/-- What an operation does before it comes to its frame. -/
def prepared (op : Operation) (w : World σ) : World σ :=
  match op with
  | .sendStaged h kind => w.takeStaged h kind
  | .requestShutdown h delay enable => w.intend h delay enable
  | .setInflate h factor _ => w.inflate h factor
  | .verifyAlive h _ => w.put h (w.proxy h).openPing.2
  | _ => w

/-- What an operation that began in `w` does once its link has given the frame back. -/
def land (op : Operation) (w : World σ) (sent : Except IoFault Unit) (v : World σ) : World σ :=
  match op with
  | .sendStaged h kind =>
    match sent, (w.session h).staged kind with
    | .error _, some content => if kind = .requirements then v else v.restore h kind content
    | _, _ => v
  | .verifyAlive h _ => v.modify h (Proxy.dropPing (w.nextPing h))
  | _ => v

/-- Enters in the journal that a link has taken a frame, if it has. -/
def acknowledge (d : Dispatch) (sent : Except IoFault Unit) (v : World σ) : World σ :=
  match sent with
  | .ok () => v.note (.accepted d)
  | .error _ => v

variable {host : Host σ} {w : World σ} {f : Flight σ}

theorem offer?_eq_some {h : Handle} {channel : Channel} {m : Message}
    (found : w.offer? h channel m = some f) :
    f.dispatch.owner = h ∧ Wire.Frame.encode m channel.stream = .ok f.dispatch.frame ∧
      f.handed = w.note (.offered f.dispatch) := by
  unfold offer? at found
  split at found
  next encoded =>
    cases found
    exact ⟨rfl, encoded, rfl⟩
  · cases found

theorem offer?_encoded {h : Handle} {channel : Channel} {m : Message}
    (found : w.offer? h channel m = some f) : f.dispatch.Encoded := by
  unfold offer? at found
  split at found
  next encoded =>
    cases found
    exact encoded
  · cases found

/-- Every frame that is under way is a frame of its message, and it is handed over in the world that
the operation has prepared. -/
theorem flight?_eq_some {op : Operation} (found : w.flight? op = some f) :
    f.dispatch.Encoded ∧ f.handed = (w.prepared op).note (.offered f.dispatch) := by
  cases op with
  | send h m => exact ⟨offer?_encoded found, (offer?_eq_some found).2.2⟩
  | sendStaged h kind =>
    obtain ⟨content, -, found⟩ := Option.bind_eq_some_iff.mp found
    exact ⟨offer?_encoded found, (offer?_eq_some found).2.2⟩
  | requestShutdown h delay enable => exact ⟨offer?_encoded found, (offer?_eq_some found).2.2⟩
  | setInflate h factor sendOver =>
    obtain ⟨-, found⟩ := Option.ite_none_right_eq_some.mp found
    exact ⟨offer?_encoded found, (offer?_eq_some found).2.2⟩
  | verifyAlive h timeout =>
    obtain ⟨link, -, found⟩ := Option.bind_eq_some_iff.mp found
    obtain ⟨-, same⟩ := Option.ite_none_right_eq_some.mp found
    cases same
    exact ⟨w.encode_pingDispatch h link, rfl⟩
  | _ => cases found

theorem send_of_no_offer (host : Host σ) {h : Handle} {channel : Channel} {m : Message}
    (missing : w.offer? h channel m = none) :
    ∃ fault, w.send host h channel m = (.error fault, w) := by
  unfold offer? at missing
  unfold send
  cases linked : channel.link with
  | none => exact ⟨_, rfl⟩
  | some link =>
    cases encoded : Wire.Frame.encode m channel.stream with
    | error fault => exact ⟨_, rfl⟩
    | ok frame => simp [linked, encoded] at missing

theorem send_of_offer {h : Handle} {channel : Channel} {m : Message} {sent : Except IoFault Unit}
    {v : World σ} (found : w.offer? h channel m = some f)
    (transmitted : host.transmit f.dispatch.link f.dispatch.frame f.handed = (sent, v)) :
    w.send host h channel m = (sent.mapError Fault.transport, acknowledge f.dispatch sent v) := by
  unfold offer? at found
  split at found
  next link frame linked encoded =>
    cases found
    unfold send
    simp only [linked, encoded]
    rw [transmitted]
    cases sent with
    | error fault => rfl
    | ok => rfl
  · cases found

/-- A message that is not offered is answered without the links. -/
theorem send_of_unoffered {h : Handle} {channel : Channel} {m : Message}
    (missing : w.offer? h channel m = none) (other : Host σ) :
    w.send host h channel m = w.send other h channel m := by
  unfold offer? at missing
  unfold send
  cases linked : channel.link with
  | none => rfl
  | some link =>
    cases encoded : Wire.Frame.encode m channel.stream with
    | error fault => rfl
    | ok frame => simp [linked, encoded] at missing

/-- An operation that has no frame under way has nothing to do with the links. -/
theorem perform_of_no_flight {op : Operation} (silent : w.flight? op = none) (single : op ≠ .sweep)
    (transmit : Link → Bytes → World σ → Except IoFault Unit × World σ) :
    w.perform host op = w.perform ⟨host.toProcessControl, transmit⟩ op := by
  have unoffered {h : Handle} {channel : Channel} {m : Message} {v : World σ}
      (missing : v.offer? h channel m = none) :
      v.send host h channel m = v.send ⟨host.toProcessControl, transmit⟩ h channel m :=
    send_of_unoffered missing _
  cases op with
  | send h m => exact congrArg (answering .outcome) (unoffered silent)
  | sendStaged h kind =>
    refine congrArg (answering .sent) ?_
    unfold flight? takeStaged at silent
    unfold sendStaged
    dsimp only at silent ⊢
    cases staged : (w.session h).staged kind with
    | none => rfl
    | some content =>
      rw [staged, Option.bind_some] at silent
      dsimp only
      rw [unoffered silent]
  | requestShutdown h delay enable =>
    refine congrArg (answering .outcome) ?_
    unfold flight? intend at silent
    unfold requestShutdown
    dsimp only at silent ⊢
    rw [unoffered silent]
  | setInflate h factor sendOver =>
    refine congrArg (answering .outcome) ?_
    unfold flight? inflate at silent
    unfold setInflate
    dsimp only at silent ⊢
    cases sendOver with
    | false => rfl
    | true =>
      rw [if_pos rfl] at silent
      rw [unoffered silent]
  | verifyAlive h timeout =>
    refine congrArg (answering .outcome) ?_
    rcases barred_or_noLink_or_pings h w with barred | ⟨valid, going, noLink⟩ | ⟨link, pings⟩
    · rw [verifyAlive_of_invalid _ w h timeout barred, verifyAlive_of_invalid _ w h timeout barred]
    · rw [verifyAlive_of_noLink _ w h timeout valid going noLink,
        verifyAlive_of_noLink _ w h timeout valid going noLink]
    · simp [flight?, pings.link, pings.valid, pings.going] at silent
  | sweep => exact absurd rfl single
  | _ => rfl

/-- An operation is what comes before its frame is handed over, what the link does, and what comes
after. -/
theorem perform_of_flight {op : Operation} {sent : Except IoFault Unit} {v : World σ}
    (found : w.flight? op = some f)
    (transmitted : host.transmit f.dispatch.link f.dispatch.frame f.handed = (sent, v)) :
    (w.perform host op).2 = w.land op sent (acknowledge f.dispatch sent v) := by
  cases op with
  | send h m => exact congrArg Prod.snd (send_of_offer found transmitted)
  | sendStaged h kind =>
    obtain ⟨content, staged, found⟩ := Option.bind_eq_some_iff.mp found
    have passed := send_of_offer found transmitted
    show (w.sendStaged host h kind).2 = _
    unfold sendStaged
    unfold takeStaged at passed
    simp only [staged, passed, land]
    cases sent with
    | error fault => rfl
    | ok => rfl
  | requestShutdown h delay enable =>
    have passed := send_of_offer found transmitted
    have linked : (w.session h).channel.link.isNone = false := by
      cases channel : (w.session h).channel.link with
      | none => simp [flight?, offer?, channel] at found
      | some link => rfl
    show (w.requestShutdown host h delay enable).2 = _
    unfold requestShutdown
    unfold intend at passed
    simp only [linked]
    exact congrArg Prod.snd passed
  | setInflate h factor sendOver =>
    unfold flight? at found
    dsimp only at found
    split at found
    next announced =>
      show (w.setInflate host h factor sendOver).2 = _
      unfold setInflate
      dsimp only
      rw [if_pos announced]
      exact congrArg Prod.snd (send_of_offer found transmitted)
    · cases found
  | verifyAlive h timeout =>
    obtain ⟨link, linked, found⟩ := Option.bind_eq_some_iff.mp found
    split at found
    next ready =>
      cases found
      rw [Bool.and_eq_true, Bool.not_eq_true'] at ready
      have pings : w.Pings h link := ⟨ready.1, ready.2, linked⟩
      have handed : host.transmit link (w.pingDispatch h link).frame (w.pinging h link) =
          (sent, v) := transmitted
      show (w.verifyAlive host h timeout).2 = _
      rw [verifyAlive_of_pings host w h timeout pings, handed]
      cases sent with
      | error fault => rfl
      | ok => rfl
    · cases found
  | _ => cases found

end World

end Supervisor
