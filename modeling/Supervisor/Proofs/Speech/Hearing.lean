import Supervisor.Proofs.Ping.Onward
import Supervisor.Proofs.Wire.Grammar

/-!
# What is heard from workers

The bytes that a worker sends begin with some frames, and behind the last of these there is a reason
why no other can be read. `Frame.Holds` says so without a word about reading. Every string of bytes
holds one list of messages and stops for one reason (`Frame.exists_holds`, `Frame.Holds.unique`).

`Proxy.Hears` says what a list of messages does to a proxy: the last status message stands, pings
are answered by the replies to them, and that is all. `hears_handle` is the step and `hears_foldl`
the run, so that `route_of_holds` comes down to the messages that the bytes hold.
-/

set_option autoImplicit false
set_option relaxedAutoImplicit false

namespace Supervisor

/-! ### What a string of bytes holds -/

namespace Wire.Frame

variable {w : Bytes} {s : Source} {ms ms' : List Message} {fault fault' : Fault}

/-- The bytes begin with frames of the messages, one after the other, and what is behind them is no
frame, for that reason. -/
inductive Holds : Bytes → List Message → Fault → Prop
  | stop {w : Bytes} {fault : Fault} (stops : Stops w fault) : Holds w [] fault
  | frame {w : Bytes} {m : Message} {stream : StreamId} {n : Nat} {ms : List Message}
      {fault : Fault} (begins : Begins w m stream n) (rest : Holds (w.drop (8 + n)) ms fault) :
      Holds w (m :: ms) fault

theorem exists_holds (w : Bytes) : ∃ ms fault, Holds w ms fault := by
  generalize size : w.length = length
  induction length using Nat.strongRecOn generalizing w with
  | ind length ih =>
    rcases begins_or_stops w with ⟨m, stream, n, begins⟩ | ⟨fault, stops⟩
    · have shorter : (w.drop (8 + n)).length < length := by
        rw [List.length_drop, size]
        have whole := begins.whole
        omega
      obtain ⟨ms, fault, rest⟩ := ih _ shorter _ rfl
      exact ⟨m :: ms, fault, .frame begins rest⟩
    · exact ⟨[], fault, .stop stops⟩

/-- The message of a frame that was written is held before all that follows. -/
theorem Holds.cons_encode {m : Message} {stream : StreamId} {frame : Bytes}
    (encoded : encode m stream = .ok frame) (rest : Holds w ms fault) :
    Holds (frame ++ w) (m :: ms) fault := by
  have gives := Source.gives_ofBytes (frame ++ w)
  obtain ⟨left, remains, found⟩ := read_frame encoded gives
  have used : (frame ++ w).drop frame.length = w := List.drop_left
  obtain ⟨n, size, begins⟩ := (read_ok_iff gives m stream frame.length).mp
    ⟨left, by simp, used.symm ▸ remains, found⟩
  rw [← used, size] at rest
  exact .frame begins rest

/-- What the bytes hold is what is read, however the reads cut them. -/
theorem Holds.readAll (holds : Holds w ms fault) (gives : s.Gives w) :
    (readAll s).1.map Prod.fst = ms ∧ (readAll s).2.1 = fault := by
  induction holds generalizing s with
  | stop stops =>
    rw [readAll_of_error (Prod.ext (stops.read gives) rfl : read s = (.error _, (read s).2))]
    exact ⟨rfl, rfl⟩
  | frame begins _ ih =>
    obtain ⟨rest, left, found⟩ := read_of_begins gives begins
    obtain ⟨messages, reason⟩ := ih left
    rw [readAll_of_ok found]
    exact ⟨congrArg (_ :: ·) messages, reason⟩

theorem Holds.unique (holds : Holds w ms fault) (holds' : Holds w ms' fault') :
    ms = ms' ∧ fault = fault' := by
  obtain ⟨messages, reason⟩ := holds.readAll (Source.gives_ofBytes w)
  obtain ⟨messages', reason'⟩ := holds'.readAll (Source.gives_ofBytes w)
  exact ⟨messages.symm.trans messages', reason.symm.trans reason'⟩

end Wire.Frame

/-! ### What messages do to a proxy -/

/-- The code that a status message brings. -/
def Message.statusCode? : Message → Option Int32
  | .status code => some code
  | _ => none

/-- The code of the last status message. -/
def Message.lastStatus? (ms : List Message) : Option Int32 :=
  (ms.filterMap Message.statusCode?).getLast?

/-- The session after such messages: the status is that of the last status message, and a ping waits
no longer if there was a reply to it. -/
def Session.after (ms : List Message) (s : Session) : Session :=
  { s with
    status := (Message.lastStatus? ms).getD s.status
    pings := s.pings.filter fun ping ↦ .pingReply ping.id ∉ ms }

theorem Message.lastStatus?_cons (m : Message) (ms : List Message) :
    lastStatus? (m :: ms) = (lastStatus? ms).or m.statusCode? := by
  unfold lastStatus?
  cases found : m.statusCode? with
  | none => rw [List.filterMap_cons_none found, Option.or_none]
  | some code => rw [List.filterMap_cons_some found, List.getLast?_cons, Option.or_some]

namespace Session

variable {s : Session} {m : Message} {ms : List Message}

theorem after_of_no_reply (s : Session) (silent : ∀ id, .pingReply id ∉ ms) :
    s.after ms = { s with status := (Message.lastStatus? ms).getD s.status } := by
  have all : s.pings.filter (fun ping ↦ .pingReply ping.id ∉ ms) = s.pings :=
    List.filter_eq_self.mpr fun ping _ ↦ decide_eq_true (silent ping.id)
  rw [after, all]

theorem after_after (s : Session) (m : Message) (ms : List Message) :
    (s.after [m]).after ms = s.after (m :: ms) := by
  have status : (Message.lastStatus? ms).getD ((Message.lastStatus? [m]).getD s.status) =
      (Message.lastStatus? (m :: ms)).getD s.status := by
    rw [Message.lastStatus?_cons m ms, Message.lastStatus?_cons m []]
    cases Message.lastStatus? ms with
    | none => rfl
    | some code => rfl
  have pings : (s.pings.filter fun ping ↦ .pingReply ping.id ∉ [m]).filter
        (fun ping ↦ .pingReply ping.id ∉ ms) =
      s.pings.filter fun ping ↦ .pingReply ping.id ∉ m :: ms := by
    rw [List.filter_filter]
    congr 1
    funext ping
    simp [Bool.and_comm]
  unfold after
  rw [status, pings]

/-- A ping that waits goes on to do so until there is a reply to it. -/
theorem pending?_after (s : Session) (ms : List Message) (id : PingId) :
    (s.after ms).pending? id = if .pingReply id ∈ ms then none else s.pending? id := by
  unfold after pending?
  rw [List.find?_filter]
  split
  next replied =>
    refine List.find?_eq_none.mpr fun ping _ same ↦ ?_
    simp only [decide_eq_true_eq] at same
    exact same.1 (same.2 ▸ replied)
  next silent =>
    congr 1
    funext ping
    by_cases same : ping.id = id
    · simp [same, silent]
    · simp [same]

theorem after_pingReply (s : Session) (id : PingId) : s.after [.pingReply id] = s.forget id := by
  have status : Message.lastStatus? [.pingReply id] = none := rfl
  unfold after forget
  simp only [status, List.mem_singleton, Message.pingReply.injEq]
  rfl

end Session

namespace Proxy

variable {p p' p'' : Proxy} {m : Message} {ms : List Message}

/-- From the one to the other, the messages were taken in. The session is as it is after them, and
whoever waited for a ping to which there was a reply has the answer. Nothing else is different. -/
structure Hears (p : Proxy) (ms : List Message) (p' : Proxy) : Prop where
  session : p'.session = p.session.after ms
  replies : ∀ ping, ping ∈ p'.replies ↔
    ping ∈ p.replies ∨ p.session.pending? ping.id = some ping ∧ .pingReply ping.id ∈ ms
  settings : p'.settings = p.settings
  opened : p'.opened = p.opened
  callers : p'.callers = p.callers

theorem Hears.nil (p : Proxy) : p.Hears [] p :=
  ⟨(p.session.after_of_no_reply fun _ ↦ List.not_mem_nil).symm, by simp, rfl, rfl, rfl⟩

theorem hears_deliver (p : Proxy) (id : PingId) : p.Hears [.pingReply id] (p.deliver id).2 := by
  unfold deliver
  cases found : p.session.pending? id with
  | none =>
    have absent : p.session.forget id = p.session := by
      unfold Session.forget
      rw [List.filter_eq_self.mpr fun ping waits ↦ ?_]
      exact decide_eq_true (by simpa using List.find?_eq_none.mp found ping waits)
    refine ⟨by rw [Session.after_pingReply, absent], fun ping ↦ ⟨.inl, ?_⟩, rfl, rfl, rfl⟩
    rintro (ready | ⟨waits, replied⟩)
    · exact ready
    · cases List.mem_singleton.mp replied
      cases found.symm.trans waits
  | some waiting =>
    refine ⟨(p.session.after_pingReply id).symm, fun ping ↦ ?_, rfl, rfl, rfl⟩
    show ping ∈ waiting :: p.replies ↔ _
    rw [List.mem_cons, or_comm]
    refine or_congr_right ⟨?_, ?_⟩
    · rintro rfl
      rw [Session.id_of_pending? found]
      exact ⟨found, List.mem_singleton.mpr rfl⟩
    · rintro ⟨waits, replied⟩
      cases List.mem_singleton.mp replied
      exact Option.some.inj (waits.symm.trans found)

/-- One message. -/
theorem hears_handle (p : Proxy) (m : Message) : p.Hears [m] (p.handle m) := by
  cases m with
  | pingReply id => exact p.hears_deliver id
  | _ =>
    refine ⟨?_, by simp [handle, modify], rfl, rfl, rfl⟩
    rw [Session.after_of_no_reply _ fun _ ↦ by simp]
    rfl

theorem Hears.cons (first : p.Hears [m] p') (rest : p'.Hears ms p'') : p.Hears (m :: ms) p'' := by
  refine ⟨?_, fun ping ↦ ?_, rest.settings.trans first.settings, rest.opened.trans first.opened,
    rest.callers.trans first.callers⟩
  · rw [rest.session, first.session, Session.after_after]
  · rw [rest.replies, first.replies, first.session, Session.pending?_after, or_assoc]
    by_cases replied : .pingReply ping.id = m
    · simp [replied]
    · simp [replied]

theorem hears_foldl (p : Proxy) (ms : List Message) :
    p.Hears ms (ms.foldl (fun p m ↦ p.handle m) p) := by
  induction ms generalizing p with
  | nil => exact .nil p
  | cons m ms ih => exact (p.hears_handle m).cons (ih _)

/-! ### What bytes do to a proxy -/

variable {w : Bytes} {source : Wire.Source} {fault : Wire.Fault}

theorem route_of_holds (holds : Wire.Frame.Holds w ms fault) (gives : source.Gives w) (p : Proxy) :
    p.route source = (if fault = .endOfStream then .ok ms.length else .error fault,
      ms.foldl (fun p m ↦ p.handle m) p) := by
  obtain ⟨messages, reason⟩ := holds.readAll gives
  refine Prod.ext ?_ ?_
  · rw [fst_route, reason, ← messages, List.length_map]
  · rw [route_eq, ← messages, List.foldl_map]

/-- Whatever bytes a worker sends and however they are cut, they hold one list of messages and stop
for one reason. The messages are taken in one after the other, those before a frame at fault
included. They are counted if the bytes just end, and otherwise the fault is reported. Besides the
status and the pings that wait, nothing of the session is touched. -/
theorem route_folds (gives : source.Gives w) (p : Proxy) :
    ∃ ms fault, Wire.Frame.Holds w ms fault ∧
      (∀ ms' fault', Wire.Frame.Holds w ms' fault' → ms' = ms ∧ fault' = fault) ∧
      (p.route source).1 = (if fault = .endOfStream then .ok ms.length else .error fault) ∧
      (p.route source).2 = ms.foldl (fun p m ↦ p.handle m) p ∧
      p.Hears ms (p.route source).2 := by
  obtain ⟨ms, fault, holds⟩ := Wire.Frame.exists_holds w
  have routed := route_of_holds holds gives p
  refine ⟨ms, fault, holds, fun _ _ other ↦ other.unique holds, congrArg Prod.fst routed,
    congrArg Prod.snd routed, ?_⟩
  rw [routed]
  exact p.hears_foldl ms

/-- A frame whose payload is too short for its message, with three messages before it and one behind
it, while two pings wait. -/
theorem route_folds_short :
    let p := (new Settings.standard Calendar.Timestamp.epoch).openPing.2.openPing.2
    let frame (m : Message) := Wire.Frame.header m 0 ++ m.toBytes
    let short := Wire.leBytes 4 8 ++ Wire.leBytes 4 0 ++ Wire.leBytes 4 4
    let w := frame (.status 5) ++ (frame (.pingReply 2) ++ (frame (.status 7) ++
      (short ++ frame (.status 9))))
    let source := Wire.Source.ofBytesInReads 3 w
    source.Gives w ∧ (p.route source).1 = .error (.payload .ended) ∧
      (p.route source).2.session.status = 7 ∧
      ⟨1⟩ ∈ (p.route source).2.replies ∧ (p.route source).2.session.pings = [⟨0⟩] := by
  intro p frame short w source
  have gives : source.Gives w := ⟨by unfold Wire.Source.Steady; decide, by decide⟩
  have ends : Wire.Frame.Stops (short ++ frame (.status 9)) (.payload .ended) :=
    .payload (by decide) (by decide) (by decide) (by decide)
  have holds : Wire.Frame.Holds w [.status 5, .pingReply 2, .status 7] (.payload .ended) :=
    .cons_encode rfl (.cons_encode rfl (.cons_encode rfl (.stop ends)))
  obtain ⟨ms, fault, -, only, result, -, hears⟩ := route_folds gives p
  obtain ⟨rfl, rfl⟩ := only _ _ holds
  refine ⟨gives, ?_, ?_, ?_, ?_⟩
  · rw [result, if_neg (by decide)]
  · rw [hears.session]
    decide
  · rw [hears.replies]
    decide
  · rw [hears.session]
    decide

end Proxy

end Supervisor
