import Mathlib.Tactic.Choose
import Supervisor.Proofs.Speech.Calls
import Supervisor.Proofs.Staging.Delivery

/-!
# What workers read

`Speaks` are the runs told together with the calls whose frames links have taken, in the order in
which they were: those that were made while a frame was under way come before the one whose frame it
was. Every run can be told so (`Reaches.exists_speaks`).

Whoever reads what a link has taken, in pieces of any size, finds what these calls had to say over
that link, one message each and in order, and nothing else (`World.worker_reads`). A message that is
too long is never offered to a link.
-/

set_option autoImplicit false
set_option relaxedAutoImplicit false

namespace Supervisor

variable {σ : Type}

/-! ### Runs and what is said in them -/

/-- Runs, with the calls that came to a word with a worker. -/
inductive Speaks (control : ProcessControl σ) : World σ → List (Call σ) → World σ → Prop
  | refl (w : World σ) : Speaks control w [] w
  | perform {w w' : World σ} {said : List (Call σ)} (run : Speaks control w said w')
      (op : Operation) (transmit : Link → Bytes → World σ → Except IoFault Unit × World σ)
      (heard : Link → Bytes → World σ → List (Call σ))
      (during : ∀ link frame v,
        Speaks control v (heard link frame v) (transmit link frame v).2) :
      Speaks control w
        (said ++ (w'.calls ⟨control, transmit⟩ op).flatMap (Call.spoken ⟨control, transmit⟩ heard))
        (w'.perform ⟨control, transmit⟩ op).2
  | change {w w' : World σ} {said : List (Call σ)} (run : Speaks control w said w')
      (environment : σ) : Speaks control w said { w' with environment := environment }
  | remark {w w' : World σ} {said : List (Call σ)} (run : Speaks control w said w')
      (outcome : Except Fault Unit) : Speaks control w said (w'.note (.noted outcome))

variable {control : ProcessControl σ}

theorem Reaches.exists_speaks {base w : World σ} (run : Reaches control base w) :
    ∃ said, Speaks control base said w := by
  induction run with
  | refl w => exact ⟨[], .refl w⟩
  | perform _ op transmit _ first during =>
    obtain ⟨said, told⟩ := first
    choose heard nested using during
    exact ⟨_, told.perform op transmit heard nested⟩
  | change _ environment first =>
    obtain ⟨said, told⟩ := first
    exact ⟨said, told.change environment⟩
  | remark _ outcome first =>
    obtain ⟨said, told⟩ := first
    exact ⟨said, told.remark outcome⟩

/-- Nothing but runs can be told so. -/
theorem Speaks.reaches {base w : World σ} {said : List (Call σ)}
    (told : Speaks control base said w) : Reaches control base w := by
  induction told with
  | refl w => exact .refl w
  | perform _ op transmit _ _ first during => exact first.perform op transmit during
  | change _ environment first => exact first.change environment
  | remark _ outcome first => exact first.remark outcome

/-- What links have taken in a run is what its calls had to say. -/
theorem Speaks.conveys {base w : World σ} {said : List (Call σ)}
    (told : Speaks control base said w) : base.Conveys said w := by
  induction told with
  | refl w => exact (World.Hushed.refl w).conveys
  | perform _ op transmit heard _ first during =>
    have meanwhile : Host.Conveys ⟨control, transmit⟩ heard := during
    exact first.trans (.perform meanwhile op _)
  | change _ environment first => exact first.hushed (.of_eq rfl)
  | remark _ outcome first => exact first.hushed (.note rfl _)

/-! ### Reading it -/

namespace Wire.Frame

/-- Whoever reads these bytes to their end finds these messages, wherever the reads cut the bytes,
and does not stop inside a frame. -/
def ReadsAs (bs : Bytes) (packets : List (Message × StreamId)) : Prop :=
  ∀ s : Source, s.Gives bs → readAll s = (packets, .endOfStream, ⟨[]⟩)

theorem Encodes.readsAs {packets : List (Message × StreamId)} {frames : List Bytes}
    (encodes : Encodes packets frames) : ReadsAs frames.flatten packets := by
  intro s gives
  induction encodes generalizing s with
  | nil => exact readAll_of_error (read_end gives)
  | cons encoded _ ih =>
    obtain ⟨rest, left, first⟩ := read_frame encoded gives
    rw [readAll_of_ok first, ih rest left]

end Wire.Frame

open Wire.Frame (ReadsAs Encodes)

theorem Dispatch.encodes {ds : List Dispatch} (encoded : ∀ d ∈ ds, d.Encoded) :
    Encodes (ds.map (·.utterance.packet)) (ds.map (·.frame)) := by
  induction ds with
  | nil => exact .nil
  | cons d ds ih =>
    rw [List.forall_mem_cons] at encoded
    exact .cons encoded.1 (ih encoded.2)

theorem mem_of_mem_taken {told : List Event} {d : Dispatch} (known : d ∈ taken told) :
    .accepted d ∈ told := by
  obtain ⟨e, here, accepted⟩ := List.mem_filterMap.mp known
  cases e with
  | accepted other =>
    cases accepted
    exact List.mem_reverse.mp here
  | _ => cases accepted

namespace World

/-- The frames that a link has taken since some point, one after the other. -/
def takenBy (link : Link) (told : List Event) : Bytes :=
  (((taken told).filter (·.link = link)).map (·.frame)).flatten

/-- Every call that is told has something to say, and what they say over a link is read there. -/
theorem Conveys.read {base w : World σ} {said : List (Call σ)} (conveys : base.Conveys said w) :
    (∀ call ∈ said, call.utterance?.isSome) ∧
      ∀ link, ReadsAs (takenBy link (w.since base))
        (((said.filterMap Call.utterance?).filter (·.link = link)).map Utterance.packet) := by
  obtain ⟨news, journal, encoded, uttered⟩ := conveys
  have utterances : said.filterMap Call.utterance? = (taken news).map (·.utterance) := by
    have whole := congrArg (List.filterMap id) uttered
    rw [List.filterMap_map, List.filterMap_map] at whole
    exact whole.symm.trans (congrFun List.filterMap_eq_map _)
  refine ⟨fun call known ↦ ?_, fun link ↦ ?_⟩
  · have here : call.utterance? ∈ (taken news).map (some ·.utterance) :=
      uttered ▸ List.mem_map_of_mem known
    obtain ⟨d, -, same⟩ := List.mem_map.mp here
    rw [← same]
    rfl
  · have whole : ∀ d ∈ (taken news).filter (·.link = link), d.Encoded := fun d known ↦
      encoded _ (mem_of_mem_taken (List.mem_filter.mp known).1) d rfl
    rw [since_eq journal, utterances, List.filter_map, List.map_map]
    exact (Dispatch.encodes whole).readsAs

/-- Whatever a link is handed is one frame. -/
theorem Conveys.one_frame {base w : World σ} {said : List (Call σ)}
    (conveys : base.Conveys said w) {d : Dispatch} (handed : .offered d ∈ w.since base) :
    ReadsAs d.frame [(d.message, d.stream)] := by
  obtain ⟨news, journal, encoded, -⟩ := conveys
  rw [since_eq journal] at handed
  have single : Encodes [(d.message, d.stream)] [d.frame] :=
    .cons (encoded _ handed d rfl) .nil
  simpa using single.readsAs

/-! ### Messages that are too long -/

end World

/-- The fault that a request was answered with. -/
def Answer.fault? : Answer → Option Fault
  | .outcome (.error fault) | .priority (.error fault) | .sent (.error fault)
  | .acquired (.error fault) | .moved (.error fault) => some fault
  | _ => none

namespace World

variable {w : World σ} {h : Handle} {m : Message} {u : Utterance}

theorem utter_eq_some (said : w.utter h m = some u) :
    (w.session h).link = some u.link ∧ u.message = m ∧ u.stream = (w.session h).id.address := by
  obtain ⟨link, linked, rfl⟩ := Option.map_eq_some_iff.mp said
  exact ⟨linked, rfl, rfl⟩

theorem send_of_tooLong (host : Host σ) (said : w.utter h m = some u) (v : World σ)
    (long : Wire.payloadLimit < m.toBytes.length) :
    v.send host h (w.session h).channel m =
      (.error (.transport (.wire (.tooLong m.toBytes.length))), v) := by
  have linked : (w.session h).channel.link = some u.link := (utter_eq_some said).1
  have encoded (stream : StreamId) :
      Wire.Frame.encode m stream = .error (.tooLong m.toBytes.length) :=
    if_neg (Nat.not_le.mpr long)
  unfold send
  simp only [linked, encoded]

/-- An operation whose message is too long hands nothing to a link, and is answered with what is
wrong with the message. -/
theorem perform_of_tooLong (host : Host σ) {op : Operation} (said : w.utterance? op = some u)
    (long : 1048576 < u.message.toBytes.length) :
    (w.perform host op).1.fault? =
        some (.transport (.wire (.tooLong u.message.toBytes.length))) ∧
      w.Hushed (w.perform host op).2 := by
  have silent : w.flight? op = none := by
    have carried := flight?_utterance op w
    have unfit : ¬ u.fits = true := fun fits ↦ Nat.not_le.mpr long (of_decide_eq_true fits)
    rw [said, Option.filter_some, if_neg unfit] at carried
    exact Option.map_eq_none_iff.mp carried
  have single : op ≠ .sweep := by
    rintro rfl
    cases said
  refine ⟨?_, .perform silent single⟩
  cases op with
  | send h m =>
    obtain ⟨-, rfl, -⟩ := utter_eq_some said
    show (Answer.outcome (w.send host h (w.session h).channel u.message).1).fault? = _
    rw [send_of_tooLong host said w long]
    rfl
  | sendStaged h kind =>
    obtain ⟨content, staged, said⟩ := Option.bind_eq_some_iff.mp said
    obtain ⟨-, same, -⟩ := utter_eq_some said
    rw [same] at long ⊢
    show (Answer.sent (w.sendStaged host h kind).1).fault? = _
    unfold sendStaged
    simp only [staged, send_of_tooLong host said _ long]
    rfl
  | requestShutdown h delay enable =>
    obtain ⟨-, same, -⟩ := utter_eq_some said
    simp [same, Message.toBytes] at long
  | setInflate h factor sendOver =>
    obtain ⟨-, said⟩ := Option.ite_none_right_eq_some.mp said
    obtain ⟨-, same, -⟩ := utter_eq_some said
    simp [same, Message.toBytes] at long
  | verifyAlive h timeout =>
    obtain ⟨-, said⟩ := Option.ite_none_right_eq_some.mp said
    obtain ⟨-, same, -⟩ := utter_eq_some said
    simp [same, Message.toBytes] at long
  | _ => cases said

/-! ### Pings -/

/-- A ping says the id under which it is registered by the time a link is handed it. -/
theorem registered_of_utterance {timeout : Duration}
    (said : w.utterance? (.verifyAlive h timeout) = some u) :
    ∃ (f : Flight σ) (ping : Ping), w.flight? (.verifyAlive h timeout) = some f ∧
      f.dispatch.utterance = u ∧ u.message = .ping ping.id ∧
      (f.handed.session h).pending? ping.id = some ping := by
  obtain ⟨ready, said⟩ := Option.ite_none_right_eq_some.mp said
  obtain ⟨linked, same, address⟩ := utter_eq_some said
  refine ⟨⟨w.pingDispatch h u.link, w.pinging h u.link⟩, w.nextPing h, ?_, ?_, same, ?_⟩
  · unfold flight?
    dsimp only
    rw [linked, Option.bind_some, if_pos ready]
  · obtain ⟨link, message, stream⟩ := u
    cases same
    cases address
    exact congrArg (Utterance.mk _ _) (Session.stream_channel _)
  · have handed : (w.pinging h u.link).session h = (w.session h).register (w.nextPing h) := by
      rw [session, proxy_pinging]
      rfl
    rw [handed, Session.pending?, Session.register]
    exact List.find?_cons_of_pos (decide_eq_true rfl)

/-! ### Links that speak themselves -/

/-- Links that set the inflate factor of a proxy and send it over whenever they are handed a frame,
and then fail as it is written down for them. -/
def chatty (h : Handle) (factor : Int32) : Host (List (Option IoFault)) where
  toProcessControl := patchy.toProcessControl
  transmit link frame w :=
    patchy.transmit link frame (w.perform patchy (.setInflate h factor true)).2

/-- What is heard over such a link while it has a frame. -/
def chatter (h : Handle) (factor : Int32) (w : World (List (Option IoFault))) :
    List (Call (List (Option IoFault))) :=
  (w.calls patchy (.setInflate h factor true)).flatMap (Call.spoken patchy fun _ _ _ ↦ [])

theorem speaks_patchy {base v : World (List (Option IoFault))}
    {said : List (Call (List (Option IoFault)))}
    (told : Speaks patchy.toProcessControl base said v) (link : Link) (frame : Bytes) :
    Speaks patchy.toProcessControl base said (patchy.transmit link frame v).2 := by
  unfold patchy
  dsimp only
  split
  · exact told.change _
  · exact told.change _
  · exact told

theorem speaks_chatty (h : Handle) (factor : Int32) (link : Link) (frame : Bytes)
    (w : World (List (Option IoFault))) :
    Speaks patchy.toProcessControl w (chatter h factor w)
      ((chatty h factor).transmit link frame w).2 :=
  speaks_patchy ((Speaks.refl w).perform (.setInflate h factor true) patchy.transmit _
    fun link frame v ↦ speaks_patchy (.refl v) link frame) link frame

/-! ### What was meant is read -/

/-- In every run, whatever a link is handed is one frame, and what a link has taken is read as what
the calls that used it had to say: one message each in the order in which the link took them, each
addressed to the id that the session had. Every run can be told with its calls. A ping carries the
id under which it is registered, and a message that is too long is not handed to a link. -/
theorem worker_reads {base : World σ} (run : Reaches control base w) :
    (∃ said, Speaks control base said w) ∧
    (∀ d, .offered d ∈ w.since base → ReadsAs d.frame [(d.message, d.stream)]) ∧
    (∀ said, Speaks control base said w → (∀ call ∈ said, call.utterance?.isSome) ∧
      ∀ link, ReadsAs (takenBy link (w.since base))
        (((said.filterMap Call.utterance?).filter (·.link = link)).map Utterance.packet)) ∧
    (∀ (v : World σ) (h : Handle) (timeout : Duration) (u : Utterance),
      v.utterance? (.verifyAlive h timeout) = some u →
        ∃ (f : Flight σ) (ping : Ping), v.flight? (.verifyAlive h timeout) = some f ∧
          f.dispatch.utterance = u ∧ u.message = .ping ping.id ∧
          (f.handed.session h).pending? ping.id = some ping) ∧
    ∀ (host : Host σ) (v : World σ) (op : Operation) (u : Utterance),
      v.utterance? op = some u → 1048576 < u.message.toBytes.length →
        (v.perform host op).1.fault? =
            some (.transport (.wire (.tooLong u.message.toBytes.length))) ∧
          v.Hushed (v.perform host op).2 := by
  obtain ⟨said, told⟩ := run.exists_speaks
  refine ⟨⟨said, told⟩, fun d handed ↦ told.conveys.one_frame handed, fun said told ↦ ?_, ?_, ?_⟩
  · exact told.conveys.read
  · exact fun v h timeout u uttered ↦ registered_of_utterance uttered
  · exact fun host v op u uttered long ↦ perform_of_tooLong host uttered long

/-- A payload is lost with the factor that is sent while it is under way, and both arrive when it is
sent again, the factor first. The session has a negative id. A payload of 2^20 bytes is too long. -/
theorem worker_reads_nested :
    let h := Handle.standalone 0
    let link : Link := ⟨0, "worker"⟩
    let host := chatty h 7
    let broken : IoFault := .system .brokenPipe
    let blank := start Settings.standard [some broken, some broken, none, none] ⟨0⟩
      Calendar.Timestamp.epoch
    let addressed := ((blank.edit h (.setId (-2))).2.edit h (.setLink (some link))).2
    let base := (addressed.edit h (.stage .startMsg [1, 2])).2
    let lost := (base.perform host (.sendStaged h .startMsg)).2
    let sent := (lost.perform host (.sendStaged h .startMsg)).2
    Reaches host.toProcessControl base sent ∧
      ReadsAs (takenBy link (sent.since base))
        [(.inflate 7, 65534), (.staged .startMsg [1, 2], 65534)] ∧
      (sent.perform host (.send h (.staged .queryNum (List.replicate 1048576 0)))).1.fault? =
        some (.transport (.wire (.tooLong 1048592))) := by
  intro h link host broken blank addressed base lost sent
  have step {w : World (List (Option IoFault))} {said : List (Call (List (Option IoFault)))}
      (told : Speaks host.toProcessControl base said w) :=
    told.perform (.sendStaged h .startMsg) host.transmit (fun _ _ ↦ chatter h 7) (speaks_chatty h 7)
  obtain ⟨said, told, uttered⟩ : ∃ said, Speaks host.toProcessControl base said sent ∧
      ((said.filterMap Call.utterance?).filter (·.link = link)).map Utterance.packet =
        [(.inflate 7, 65534), (.staged .startMsg [1, 2], 65534)] :=
    ⟨_, step (step (.refl base)), by decide⟩
  have run := told.reaches
  obtain ⟨-, -, read, -, refused⟩ := worker_reads run
  -- for any length, so that nothing unfolds the payload
  have length (n : Nat) :
      (Message.staged .queryNum (List.replicate n 0)).toBytes.length = 16 + n := by
    simp only [Message.toBytes, List.length_append, Wire.length_leBytes, List.length_replicate]
  refine ⟨run, uttered ▸ (read said told).2 link, ?_⟩
  have answered := (refused host sent (.send h (.staged .queryNum (List.replicate 1048576 0)))
    ⟨link, _, 65534⟩ rfl (by rw [length]; decide)).1
  rw [length] at answered
  exact answered

end World

end Supervisor
