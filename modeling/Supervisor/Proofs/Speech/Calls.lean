import Supervisor.Proofs.Speech.Hushed
import Supervisor.Proofs.Sweep.Visits

/-!
# What is said to workers

An operation that speaks to a worker says one message. `World.utterance?` is what that is to be: the
link and the id of the session as the operation finds them, and a message made from what it was
given or from what it finds. It is written without a word about frames, channels or encoding, and
`flight?_utterance` says that the frame of an operation carries it, if it is not too long.

A sweep speaks through the calls of `verifyAlive` that it makes (`World.calls`). `Call.spoken` are
the calls that come to a word with a worker because of one call: those that are made while its frame
is under way, and then itself if the link takes the frame. What links have taken by the end of an
operation is what these calls had to say, one message each and in this order
(`World.Conveys.perform`).
-/

set_option autoImplicit false
set_option relaxedAutoImplicit false

namespace Supervisor

variable {σ : Type}

/-! ### Utterances -/

/-- The stream of a session: its id modulo 2^16. -/
def SessionId.address (id : SessionId) : StreamId :=
  .ofNat (id.toInt % 2 ^ 16).toNat

/-- A message for a worker, with the link it goes over and the stream it is addressed to. -/
structure Utterance where
  link : Link
  message : Message
  stream : StreamId
deriving DecidableEq

/-- What the worker gets to read. -/
def Utterance.packet (u : Utterance) : Message × StreamId :=
  (u.message, u.stream)

/-- The payload of the message is not too long for a frame. -/
def Utterance.fits (u : Utterance) : Bool :=
  u.message.toBytes.length ≤ 1048576

def Dispatch.utterance (d : Dispatch) : Utterance :=
  ⟨d.link, d.message, d.stream⟩

namespace World

/-- A message to the worker of a session, if there is a link to it. -/
def utter (h : Handle) (m : Message) (w : World σ) : Option Utterance :=
  (w.session h).link.map fun link ↦ ⟨link, m, (w.session h).id.address⟩

/-- What an operation that is called in this world has to say. -/
def utterance? (op : Operation) (w : World σ) : Option Utterance :=
  match op with
  | .send h m => w.utter h m
  | .sendStaged h kind =>
    ((w.session h).staged kind).bind fun content ↦ w.utter h (.staged kind content)
  | .requestShutdown h delay enable =>
    w.utter h (.shutdownTimer (.ofNat (delay.nanos / 10 ^ 9)) enable)
  | .setInflate h factor sendOver => if sendOver then w.utter h (.inflate factor) else none
  | .verifyAlive h _ =>
    if (w.session h).valid && !(w.session h).terminated then
      w.utter h (.ping (w.proxy h).openPing.1.id)
    else none
  | _ => none

end World

/-- An id is read from a channel as an unsigned number of 16 bits. -/
theorem SessionId.toInt_emod (id : SessionId) : id.toInt % 2 ^ 16 = (id.toUInt16.toNat : Int) := by
  have signed : id.toInt = (id.toUInt16.toNat : Int).bmod (2 ^ 16) :=
    BitVec.toInt_eq_toNat_bmod id.toBitVec
  have small : id.toUInt16.toNat < 2 ^ 16 := id.toUInt16.toNat_lt
  have wrapped := Int.bmod_emod (x := id.toUInt16.toNat) (m := 2 ^ 16)
  rw [signed]
  omega

theorem Session.stream_channel (s : Session) : s.channel.stream = s.id.address := by
  rw [SessionId.address, SessionId.toInt_emod, Int.toNat_natCast, UInt32.ofNat_uInt16ToNat]
  rfl

namespace World

theorem offer?_utterance (h : Handle) (m : Message) (w v : World σ) :
    (v.offer? h (w.session h).channel m).map (·.dispatch.utterance) =
      (w.utter h m).filter Utterance.fits := by
  have address := Session.stream_channel (w.session h)
  have linked : (w.session h).channel.link = (w.session h).link := rfl
  unfold offer? utter
  rw [linked, address]
  cases (w.session h).link with
  | none => rfl
  | some link =>
    by_cases fits : m.toBytes.length ≤ Wire.payloadLimit
    · rw [Wire.Frame.encode_eq_ok.mpr ⟨fits, rfl⟩]
      exact (if_pos (decide_eq_true fits)).symm
    · cases encoded : Wire.Frame.encode m (w.session h).id.address with
      | ok frame => exact absurd (Wire.Frame.encode_eq_ok.mp encoded).1 fits
      | error fault => exact (if_neg (mt of_decide_eq_true fits)).symm

/-- The frame of an operation carries what the operation has to say, unless that is too long for a
frame. -/
theorem flight?_utterance (op : Operation) (w : World σ) :
    (w.flight? op).map (·.dispatch.utterance) = (w.utterance? op).filter Utterance.fits := by
  cases op with
  | send h m => exact offer?_utterance h m w w
  | sendStaged h kind =>
    unfold flight? utterance?
    dsimp only
    cases (w.session h).staged kind with
    | none => rfl
    | some content => exact offer?_utterance h _ w _
  | requestShutdown h delay enable => exact offer?_utterance h _ w _
  | setInflate h factor sendOver =>
    cases sendOver with
    | false => rfl
    | true => exact offer?_utterance h _ w _
  | verifyAlive h timeout =>
    have short (link : Link) (id : PingId) (stream : StreamId) :
        Utterance.fits ⟨link, .ping id, stream⟩ = true := by
      simp [Utterance.fits, Message.toBytes]
    have address := Session.stream_channel (w.session h)
    unfold flight? utterance? utter
    dsimp only
    cases (w.session h).link with
    | none => split <;> rfl
    | some link =>
      rw [Option.bind_some, Option.map_some]
      split
      · rw [Option.filter_some, if_pos (short _ _ _), ← address]
        rfl
      · rfl
  | _ => rfl

end World

/-! ### Calls -/

/-- A call of an operation, with the world in which it is called. -/
structure Call (σ : Type) where
  operation : Operation
  world : World σ

namespace World

variable (host : Host σ)

/-- The attempts at a session, each a call of `verifyAlive`. -/
def pingCalls (h : Handle) (retries : Nat) (w : World σ) : List (Call σ) :=
  ⟨.verifyAlive h w.settings.pingTimeout, w⟩ ::
    match retries with
    | 0 => []
    | retries + 1 =>
      match w.verifyAlive host h w.settings.pingTimeout with
      | (.error (.timeout _), w) => pingCalls h retries w
      | _ => []

/-- The attempts at a session that a sweep checks; there is none if its process is gone. -/
def checkCalls (h : Handle) (w : World σ) : List (Call σ) :=
  match w.firstPing? host h with
  | none => []
  | some v => v.pingCalls host h (w.settings.pingAttempts.toNat - 1)

/-- The calls in which an operation may speak: itself, or those that a sweep makes. -/
def calls (op : Operation) (w : World σ) : List (Call σ) :=
  match op with
  | .sweep => (w.visits host w.active).flatMap fun visit ↦ visit.2.checkCalls host visit.1
  | op => [⟨op, w⟩]

end World

/-- A law of what happens while calls are made. It adds up, it holds where a sweep looks for a
process or terminates a session between its calls, and it holds of every call by itself. -/
structure CallLaw (host : Host σ) (Law : World σ → List (Call σ) → World σ → Prop) : Prop where
  idle : ∀ w, Law w [] w
  append : ∀ {u v w : World σ} {early late : List (Call σ)},
    Law u early v → Law v late w → Law u (early ++ late) w
  probe : ∀ h pid w, Law w [] (w.call (.probed h pid) (host.alive pid)).2
  terminate : ∀ h w, Law w [] (w.terminate host.toProcessControl h).2
  call : ∀ op w, op ≠ .sweep → Law w [⟨op, w⟩] (w.perform host op).2

namespace CallLaw

variable {host : Host σ} {Law : World σ → List (Call σ) → World σ → Prop}

/-- Without another call. -/
theorem quiet (law : CallLaw host Law) {u v w : World σ} {calls : List (Call σ)}
    (first : Law u calls v) (second : Law v [] w) : Law u calls w := by
  simpa using law.append first second

/-- One attempt at a session. -/
theorem attempt (law : CallLaw host Law) (h : Handle) (w : World σ) :
    Law w [⟨.verifyAlive h w.settings.pingTimeout, w⟩]
      (w.verifyAlive host h w.settings.pingTimeout).2 := by
  have single : Operation.verifyAlive h w.settings.pingTimeout ≠ .sweep := nofun
  exact law.call _ w single

theorem lastPing (law : CallLaw host Law) (h : Handle) (retries attempt : Nat) (w : World σ) :
    let last := (w.lastPing host h retries attempt).2
    Law w (w.pingCalls host h retries) (last.verifyAlive host h last.settings.pingTimeout).2 := by
  induction retries generalizing attempt w with
  | zero => exact law.attempt h w
  | succ retries ih =>
    have pinged := law.attempt h w
    rw [World.pingCalls, World.lastPing]
    dsimp only
    rcases found : w.verifyAlive host h w.settings.pingTimeout with ⟨outcome, v⟩
    -- anything but a timeout makes this attempt the last, and then there are no further calls
    have only := pinged
    rw [found] at pinged
    cases outcome with
    | ok => exact only
    | error cause =>
      cases cause with
      | timeout span => exact law.append pinged (ih (attempt + 1) v)
      | _ => exact only

theorem pingWithRetries (law : CallLaw host Law) (h : Handle) (retries attempt : Nat)
    (w : World σ) :
    Law w (w.pingCalls host h retries) (w.pingWithRetries host h retries attempt).2 := by
  have judged (outcome : Except Fault Unit) (v : World σ) (attempt : Nat) :
      Law v [] (World.judge host h attempt (outcome, v)).2 := by
    unfold World.judge
    cases outcome with
    | ok => exact law.idle v
    | error cause =>
      dsimp only
      split
      · exact law.idle v
      · exact law.terminate h v
  rw [World.pingWithRetries_eq]
  exact law.quiet (law.lastPing h retries attempt w) (judged _ _ _)

theorem check (law : CallLaw host Law) (h : Handle) (w : World σ) :
    Law w (w.checkCalls host h) (w.check host h).2 := by
  unfold World.checkCalls World.firstPing? World.check
  dsimp only
  cases (w.session h).pid with
  | none => exact law.pingWithRetries h _ 1 w
  | some pid =>
    have probed := law.probe h pid w
    dsimp only
    rcases found : w.call (.probed h pid) (host.alive pid) with ⟨there, v⟩
    rw [found] at probed
    cases there with
    | false => exact law.append probed (law.terminate h v)
    | true => exact law.append probed (law.pingWithRetries h _ 1 v)

theorem sweepOver (law : CallLaw host Law) (hs : List Handle) (w : World σ) :
    Law w ((w.visits host hs).flatMap fun visit ↦ visit.2.checkCalls host visit.1)
      (w.sweepOver host hs).2 := by
  induction hs generalizing w with
  | nil => exact law.idle w
  | cons h hs ih =>
    rw [World.visits, World.sweepOver]
    split
    · rw [List.flatMap_cons]
      exact law.append (law.check h w) (ih _)
    · exact ih w

/-- What holds of every call holds of the calls of an operation. -/
theorem perform (law : CallLaw host Law) (op : Operation) (w : World σ) :
    Law w (w.calls host op) (w.perform host op).2 := by
  cases op with
  | sweep => exact law.sweepOver w.active w
  | _ => exact law.call _ w nofun

end CallLaw

namespace Call

/-- What the call has to say. -/
def utterance? (call : Call σ) : Option Utterance :=
  call.world.utterance? call.operation

/-- The calls whose frames are taken because of this one: those `heard` while its own frame is under
way, and it if the link takes that. -/
def spoken (host : Host σ) (heard : Link → Bytes → World σ → List (Call σ)) (call : Call σ) :
    List (Call σ) :=
  match call.world.flight? call.operation with
  | none => []
  | some f =>
    heard f.dispatch.link f.dispatch.frame f.handed ++
      match (host.transmit f.dispatch.link f.dispatch.frame f.handed).1 with
      | .ok () => [call]
      | .error _ => []

end Call

/-! ### What links have taken -/

def Event.accepted? : Event → Option Dispatch
  | .accepted d => some d
  | _ => none

/-- The frames that links have taken, in the order in which they did. -/
def taken (told : List Event) : List Dispatch :=
  told.reverse.filterMap Event.accepted?

theorem taken_append (late early : List Event) :
    taken (late ++ early) = taken early ++ taken late := by
  rw [taken, List.reverse_append, List.filterMap_append]
  rfl

theorem taken_of_wordless {told : List Event} (wordless : ∀ e ∈ told, e.frame? = none) :
    taken told = [] := by
  refine List.filterMap_eq_nil_iff.mpr fun e known ↦ ?_
  have silent := wordless e (List.mem_reverse.mp known)
  cases e with
  | accepted d => cases silent
  | _ => rfl

namespace World

/-- On the way links were handed nothing but frames, and what they have taken is what the calls had
to say. -/
def Conveys (w : World σ) (said : List (Call σ)) (w' : World σ) : Prop :=
  ∃ news, w'.journal = news ++ w.journal ∧
    (∀ e ∈ news, ∀ d, e.frame? = some d → d.Encoded) ∧
    (taken news).map (some ·.utterance) = said.map Call.utterance?

theorem Hushed.conveys {v w : World σ} (hushed : w.Hushed v) : w.Conveys [] v := by
  obtain ⟨news, journal, wordless⟩ := hushed
  refine ⟨news, journal, fun e told d carried ↦ ?_, by rw [taken_of_wordless wordless]; rfl⟩
  rw [wordless e told] at carried
  cases carried

end World

/-- While a link has a frame, what links take is what the calls that are heard have to say. -/
def Host.Conveys (host : Host σ) (heard : Link → Bytes → World σ → List (Call σ)) : Prop :=
  ∀ link frame w, World.Conveys w (heard link frame w) (host.transmit link frame w).2

namespace World.Conveys

variable {host : Host σ} {u v w : World σ} {early late : List (Call σ)}
  {heard : Link → Bytes → World σ → List (Call σ)}

theorem trans (first : u.Conveys early v) (second : v.Conveys late w) :
    u.Conveys (early ++ late) w := by
  obtain ⟨before, journal, encoded, said⟩ := first
  obtain ⟨after, journal', encoded', said'⟩ := second
  refine ⟨after ++ before, by rw [journal', journal, List.append_assoc], fun e told ↦ ?_, ?_⟩
  · exact (List.mem_append.mp told).elim (encoded' e) (encoded e)
  · rw [taken_append, List.map_append, List.map_append, said, said']

theorem hushed (first : u.Conveys early v) (second : v.Hushed w) : u.Conveys early w := by
  simpa using first.trans second.conveys

theorem offered {d : Dispatch} (encoded : d.Encoded) (w : World σ) :
    w.Conveys [] (w.note (.offered d)) := by
  refine ⟨[.offered d], rfl, fun e told other carried ↦ ?_, rfl⟩
  cases List.mem_singleton.mp told
  cases carried
  exact encoded

theorem accepted {d : Dispatch} (encoded : d.Encoded) {call : Call σ}
    (said : call.utterance? = some d.utterance) (w : World σ) :
    w.Conveys [call] (w.note (.accepted d)) := by
  refine ⟨[.accepted d], rfl, fun e told other carried ↦ ?_, ?_⟩
  · cases List.mem_singleton.mp told
    cases carried
    exact encoded
  · rw [List.map_singleton, said]
    rfl

/-- One call of an operation, whatever happens while its frame is under way. -/
theorem call (during : host.Conveys heard) {op : Operation} (single : op ≠ .sweep) (w : World σ) :
    w.Conveys (Call.spoken host heard ⟨op, w⟩) (w.perform host op).2 := by
  unfold Call.spoken
  dsimp only
  cases found : w.flight? op with
  | none => exact (Hushed.perform found single).conveys
  | some f =>
    obtain ⟨encoded, offer⟩ := flight?_eq_some found
    have said : Call.utterance? ⟨op, w⟩ = some f.dispatch.utterance := by
      have carried := flight?_utterance op w
      rw [found] at carried
      exact (Option.filter_eq_some_iff.mp carried.symm).1
    have handed : w.Conveys [] f.handed := by
      rw [offer]
      exact (Hushed.prepared op w).conveys.trans (offered encoded _)
    -- whatever is heard here is taken before this frame is
    rcases transmitted : host.transmit f.dispatch.link f.dispatch.frame f.handed with ⟨sent, v⟩
    have given := handed.trans (during f.dispatch.link f.dispatch.frame f.handed)
    rw [transmitted] at given
    rw [perform_of_flight found transmitted]
    refine hushed ?_ (Hushed.land op w sent _)
    dsimp only
    rw [transmitted]
    cases sent with
    | ok => exact given.trans (accepted encoded said v)
    | error fault => exact given.trans (Hushed.refl v).conveys

/-- What links take by the end of an operation is what its calls had to say, and what was heard in
the meantime. -/
theorem perform (during : host.Conveys heard) (op : Operation) (w : World σ) :
    w.Conveys ((w.calls host op).flatMap (Call.spoken host heard)) (w.perform host op).2 := by
  have law : CallLaw host fun v calls v' ↦
      v.Conveys (calls.flatMap (Call.spoken host heard)) v' :=
    { idle := fun v ↦ (Hushed.refl v).conveys
      append := fun first second ↦ by
        rw [List.flatMap_append]
        exact first.trans second
      probe := fun h pid v ↦ (Hushed.call rfl (host.alive pid) v).conveys
      terminate := fun h v ↦ (Hushed.terminate host.toProcessControl h v).conveys
      call := fun op v single ↦ by
        rw [List.flatMap_singleton]
        exact call during single v }
  exact law.perform op w

end World.Conveys

end Supervisor
