import Supervisor.Proofs.Ping.VerifyAlive

/-!
# Pings overtaken by a termination

A ping is registered in the same breath in which its session is found valid, so a termination that
takes effect afterwards finds it in the table and tears it down. One would expect every such ping to
be reported as `invalid`. But `verifyAlive` asks the ping how it stands only after a send that
succeeded, and a reply that was delivered stays with the ping when the table is cleared.
`verifyAlive_eq_invalid_iff` says that these are the two exceptions and that there are no others;
`invalid_missed` shows both.
-/

set_option autoImplicit false
set_option relaxedAutoImplicit false

namespace Supervisor

variable {h : Handle} {id : PingId} {events : List Event}

/-! ### What settles a ping first -/

/-- A reply with the id was delivered before anything else settled the ping. -/
def RepliedFirst (h : Handle) (id : PingId) (events : List Event) : Prop :=
  ∃ newer reply older, events = newer ++ reply :: older ∧
    reply.settlement? h id = some .answered ∧ ∀ e ∈ older, e.settlement? h id = none

theorem settled_eq_answered_iff : settled h id events = .answered ↔ RepliedFirst h id events := by
  have found : settled h id events = .answered ↔
      events.reverse.findSome? (Event.settlement? h id) = some .answered := by
    unfold settled
    cases events.reverse.findSome? (Event.settlement? h id) with
    | none => simp
    | some settlement => simp
  rw [found, List.findSome?_eq_some_iff]
  constructor
  · rintro ⟨older, reply, newer, split, answers, before⟩
    refine ⟨newer.reverse, reply, older.reverse, ?_, answers, fun e earlier ↦ ?_⟩
    · have turned := congrArg List.reverse split
      rw [List.reverse_reverse] at turned
      simp [turned]
    · exact before e (List.mem_reverse.mp earlier)
  · rintro ⟨newer, reply, older, rfl, answers, before⟩
    exact ⟨older.reverse, reply, newer.reverse, by simp, answers,
      fun e earlier ↦ before e (List.mem_reverse.mp earlier)⟩

/-- After a termination no ping waits any longer. -/
theorem settled_ne_timedOut (id : PingId) (ended : .ended h ∈ events) :
    settled h id events ≠ .timedOut := by
  have tears : (Event.ended h).settlement? h id = some .disconnected := if_pos rfl
  unfold settled
  cases found : events.reverse.findSome? (Event.settlement? h id) with
  | none =>
    have silent := List.findSome?_eq_none_iff.mp found _ (List.mem_reverse.mpr ended)
    rw [tears] at silent
    cases silent
  | some settlement =>
    obtain ⟨e, -, settles⟩ := List.exists_of_findSome?_eq_some found
    rintro rfl
    exact e.settlement?_ne h id settles

namespace World

variable {σ : Type} {host : Host σ} {w v : World σ} {link : Link} {sent : Except IoFault Unit}

/-! ### What is reported -/

/-- What a ping is reported as, by what became of its frame and how the ping then stands. -/
def pingOutcome (timeout : Duration) (sent : Except IoFault Unit) (stands : Awaited) :
    Except Fault Unit :=
  match sent with
  | .error fault => .error (.transport fault)
  | .ok () => outcomeOf timeout stands

theorem outcomeOf_eq_invalid_iff {timeout : Duration} {stands : Awaited} :
    outcomeOf timeout stands = .error .invalid ↔ stands = .disconnected := by
  cases stands with
  | answered => simp [outcomeOf]
  | timedOut => simp [outcomeOf]
  | disconnected => simp [outcomeOf]

section

variable (orderly : host.Orderly) (arises : w.Arises host.toProcessControl) (known : w.Has h)
  (pings : w.Pings h link)
  (transmitted : host.transmit link (w.pingDispatch h link).frame (w.pinging h link) = (sent, v))
  (few : (v.proxy h).opened ≤ 2 ^ 64)

include orderly arises known pings transmitted few

/-- A failed send is reported as such, and otherwise what settled the ping first. -/
theorem fst_verifyAlive (timeout : Duration) :
    (w.verifyAlive host h timeout).1 =
      pingOutcome timeout sent (settled h (w.nextPing h).id (v.since (w.pinging h link))) := by
  have sound : ((w.pinging h link).proxy h).Sound := by
    rw [proxy_pinging]
    exact (w.proxy h).onward_openPing.sound (arises.sound h)
  obtain ⟨waits, own⟩ := standing_pinging (arises.sound h) link
  obtain ⟨during, journal, stands⟩ := (life_of_transmit orderly h transmitted).standing
    (has_pinging known link) sound (serial_nextPing_lt w h link) own waits few
  rw [verifyAlive_of_pings host w h timeout pings, transmitted, since_eq journal, ← stands]
  cases sent with
  | error fault => rfl
  | ok => rfl

/-- A ping during which a termination takes effect is reported as `invalid` exactly when its frame
was taken and the worker's reply had not come first. -/
theorem verifyAlive_eq_invalid_iff (ended : .ended h ∈ v.since (w.pinging h link))
    (timeout : Duration) :
    (w.verifyAlive host h timeout).1 = .error .invalid ↔
      sent = .ok () ∧ ¬ RepliedFirst h (w.nextPing h).id (v.since (w.pinging h link)) := by
  rw [fst_verifyAlive orderly arises known pings transmitted few, ← settled_eq_answered_iff]
  have settles := settled_ne_timedOut (w.nextPing h).id ended
  cases sent with
  | error fault => simp [pingOutcome]
  | ok =>
    simp only [pingOutcome, outcomeOf_eq_invalid_iff, true_and]
    cases found : settled h (w.nextPing h).id (v.since (w.pinging h link)) with
    | answered => simp
    | timedOut => exact absurd found settles
    | disconnected => simp

end

/-- A valid session whose link takes a ping with the action. -/
def pingedOver (action : LinkAction) : World Script :=
  ((Script.connect (.standalone 0) "worker" [action]
    (start Settings.standard ({} : Script) ⟨0⟩ Calendar.Timestamp.epoch)).edit (.standalone 0)
      (.setValid true)).2

/-- What the link of that session makes of the ping. -/
def pingTaken (action : LinkAction) : Except IoFault Unit × World Script :=
  let w := pingedOver action
  let link : Link := ⟨0, "worker"⟩
  (Script.host Script.control).transmit link (w.pingDispatch (.standalone 0) link).frame
    (w.pinging (.standalone 0) link)

theorem arises_pingedOver (action : LinkAction) : (pingedOver action).Arises Script.control :=
  (reachable_start Script.control _ _ _ _).arises.later (.edit (.edit (.environment .start _) _ _) _ _)

/-- A termination while the ping is under way, before the worker replies. -/
theorem invalid_of_terminated :
    let h := Handle.standalone 0
    let host := Script.host Script.control
    let link : Link := ⟨0, "worker"⟩
    let action : LinkAction := { hooks := [.terminate, .reply 0] }
    let w := pingedOver action
    let v := (pingTaken action).2
    host.Orderly ∧ w.Arises host.toProcessControl ∧ w.Has h ∧ w.Pings h link ∧
      host.transmit link (w.pingDispatch h link).frame (w.pinging h link) = (.ok (), v) ∧
      .ended h ∈ v.since (w.pinging h link) ∧ (v.proxy h).opened ≤ 2 ^ 64 ∧
      (w.verifyAlive host h Duration.zero).1 = .error .invalid := by
  intro h host link action w v
  have orderly : host.Orderly := Script.host_orderly Script.control
  have arises : w.Arises host.toProcessControl := arises_pingedOver _
  have known : w.Has h := trivial
  have pings : w.Pings h link := ⟨rfl, rfl, rfl⟩
  have transmitted :
      host.transmit link (w.pingDispatch h link).frame (w.pinging h link) = (.ok (), v) := rfl
  have events : v.since (w.pinging h link) =
      [.edited h (.handle (.pingReply 1)), .noted (.error .noSuchProcess), .ended h] := by
    decide
  have ended : .ended h ∈ v.since (w.pinging h link) := by
    rw [events]
    decide
  have few : (v.proxy h).opened ≤ 2 ^ 64 := by decide
  refine ⟨orderly, arises, known, pings, transmitted, ended, few, ?_⟩
  refine (verifyAlive_eq_invalid_iff orderly arises known pings transmitted few ended
    Duration.zero).mpr ⟨rfl, ?_⟩
  rw [← settled_eq_answered_iff, events]
  decide

/-- A session is terminated while its ping is under way, and yet the ping is reported as a broken
link if the send then fails, and as answered if the worker had replied before. -/
theorem invalid_missed :
    let h := Handle.standalone 0
    let host := Script.host Script.control
    let link : Link := ⟨0, "worker"⟩
    let broken : LinkAction := { hooks := [.terminate], failure := some (.system .brokenPipe) }
    let prompt : LinkAction := { hooks := [.reply 0, .terminate] }
    host.Orderly ∧
      (∀ action, (pingedOver action).Arises host.toProcessControl ∧
        (pingedOver action).Pings h link) ∧
      (.ended h ∈ (pingTaken broken).2.since ((pingedOver broken).pinging h link) ∧
        ((pingedOver broken).verifyAlive host h Duration.zero).1 =
          .error (.transport (.system .brokenPipe))) ∧
      .ended h ∈ (pingTaken prompt).2.since ((pingedOver prompt).pinging h link) ∧
        ((pingedOver prompt).verifyAlive host h Duration.zero).1 = .ok () := by
  intro h host link broken prompt
  have orderly : host.Orderly := Script.host_orderly Script.control
  have arises (action : LinkAction) : (pingedOver action).Arises host.toProcessControl :=
    arises_pingedOver action
  have pings (action : LinkAction) : (pingedOver action).Pings h link := ⟨rfl, rfl, rfl⟩
  have known (action : LinkAction) : (pingedOver action).Has h := trivial
  have failed : pingTaken broken = (.error (.system .brokenPipe), (pingTaken broken).2) := rfl
  have taken : pingTaken prompt = (.ok (), (pingTaken prompt).2) := Prod.ext (by decide) rfl
  have events : (pingTaken prompt).2.since ((pingedOver prompt).pinging h link) =
      [.noted (.error .noSuchProcess), .ended h, .edited h (.handle (.pingReply 1))] := by
    decide
  refine ⟨orderly, fun action ↦ ⟨arises action, pings action⟩, ⟨by decide, ?_⟩, ?_, ?_⟩
  · exact fst_verifyAlive orderly (arises broken) (known broken) (pings broken) failed (by decide) _
  · rw [events]
    decide
  · rw [fst_verifyAlive orderly (arises prompt) (known prompt) (pings prompt) taken (by decide),
      events]
    rfl

end World

end Supervisor
