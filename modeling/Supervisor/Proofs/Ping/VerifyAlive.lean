import Supervisor.Proofs.Course.Run
import Supervisor.Proofs.Ping.Standing
import Supervisor.Script

/-!
# What `verifyAlive` says

`verifyAlive_spec` gives the result of `verifyAlive` and the world after it in every case. Without a
valid session and a link nothing happens. Otherwise one ping goes out, under an id that no other
ping of the proxy has (`World.pinging`), and unless the link fails, the first event that settled the
ping while the link had the frame decides. All that is then left to do is to take the ping away
(`World.without`).
-/

set_option autoImplicit false
set_option relaxedAutoImplicit false

namespace Supervisor

variable {σ : Type}

/-- The session can be pinged, over the link. -/
structure World.Pings (w : World σ) (h : Handle) (link : Link) : Prop where
  valid : (w.session h).valid = true
  going : (w.session h).terminated = false
  link : (w.session h).link = some link

namespace World

/-- The ping that `verifyAlive` opens. -/
def nextPing (w : World σ) (h : Handle) : Ping :=
  ⟨(w.proxy h).opened⟩

/-- The one message that `verifyAlive` sends. -/
def pingDispatch (w : World σ) (h : Handle) (link : Link) : Dispatch :=
  let m : Message := .ping (w.nextPing h).id
  let stream := (w.session h).channel.stream
  ⟨h, link, m, stream, Wire.Frame.header m stream ++ m.toBytes⟩

/-- The world that the link is handed together with the ping. -/
def pinging (w : World σ) (h : Handle) (link : Link) : World σ :=
  (w.put h (w.proxy h).openPing.2).note (.offered (w.pingDispatch h link))

/-- Takes a ping away from a proxy, and nothing else. -/
def without (h : Handle) (ping : Ping) (w : World σ) : World σ :=
  w.modify h fun p ↦
    { p with
      session := { p.session with pings := p.session.pings.filter fun other ↦ other ≠ ping }
      replies := p.replies.filter fun other ↦ other ≠ ping }

/-! ### The steps of `verifyAlive` -/

/-- There is no other way for `verifyAlive` to begin. -/
theorem barred_or_noLink_or_pings (h : Handle) (w : World σ) :
    ((w.session h).valid = false ∨ (w.session h).terminated = true) ∨
      ((w.session h).valid = true ∧ (w.session h).terminated = false ∧
        (w.session h).link = none) ∨
      ∃ link, w.Pings h link := by
  by_cases barred : (w.session h).valid = false ∨ (w.session h).terminated = true
  · exact .inl barred
  rw [not_or, Bool.not_eq_false, Bool.not_eq_true] at barred
  obtain ⟨valid, going⟩ := barred
  cases linked : (w.session h).link with
  | none => exact .inr (.inl ⟨valid, going, rfl⟩)
  | some link => exact .inr (.inr ⟨link, valid, going, linked⟩)

section

variable (host : Host σ) (w : World σ) (h : Handle) (timeout : Duration)

theorem verifyAlive_of_invalid
    (barred : (w.session h).valid = false ∨ (w.session h).terminated = true) :
    w.verifyAlive host h timeout = (.error .invalid, w) := by
  unfold verifyAlive
  dsimp only
  rw [if_pos]
  rcases barred with barred | barred
  · simp [barred]
  · simp [barred]

theorem verifyAlive_of_noLink (valid : (w.session h).valid = true)
    (going : (w.session h).terminated = false) (noLink : (w.session h).link = none) :
    w.verifyAlive host h timeout = (.error .noLink, w) := by
  unfold verifyAlive
  dsimp only
  rw [if_neg (by simp [valid, going]), if_pos (by simp [noLink])]

/-- A ping is short enough for any limit on payloads. -/
theorem encode_pingDispatch (link : Link) :
    Wire.Frame.encode (w.pingDispatch h link).message (w.pingDispatch h link).stream =
      .ok (w.pingDispatch h link).frame := by
  have short : (Message.ping (w.nextPing h).id).toBytes.length = 12 := by
    simp [Message.toBytes]
  refine Wire.Frame.encode_eq_ok.mpr ⟨?_, rfl⟩
  show (Message.ping (w.nextPing h).id).toBytes.length ≤ Wire.payloadLimit
  rw [short]
  decide

theorem verifyAlive_of_pings {link : Link} (pings : w.Pings h link) :
    w.verifyAlive host h timeout =
      match host.transmit link (w.pingDispatch h link).frame (w.pinging h link) with
      | (.error fault, v) =>
        (.error (.transport fault), v.modify h (Proxy.dropPing (w.nextPing h)))
      | (.ok (), v) =>
        (outcomeOf timeout ((v.proxy h).standing (w.nextPing h)),
          (v.note (.accepted (w.pingDispatch h link))).modify h
            (Proxy.dropPing (w.nextPing h))) := by
  have channel : (w.session h).channel.link = some link := pings.link
  have sent : (w.put h (w.proxy h).openPing.2).send host h (w.session h).channel
      (.ping (w.nextPing h).id) =
        match host.transmit link (w.pingDispatch h link).frame (w.pinging h link) with
        | (.error fault, v) => (.error (.transport fault), v)
        | (.ok (), v) => (.ok (), v.note (.accepted (w.pingDispatch h link))) := by
    have encoded := w.encode_pingDispatch h link
    unfold send
    simp only [channel]
    simp only [pingDispatch] at encoded
    simp only [encoded]
    rfl
  unfold verifyAlive
  dsimp only
  rw [if_neg (by simp [pings.valid, pings.going]), if_neg (by simp [pings.link])]
  have opened : (w.proxy h).openPing.1 = w.nextPing h := rfl
  rw [opened, sent]
  rcases host.transmit link (w.pingDispatch h link).frame (w.pinging h link) with ⟨sent, v⟩
  cases sent with
  | error fault => rfl
  | ok => exact concludePing_eq h _ _ _

end

/-! ### Every case -/

section

variable {control : ProcessControl σ} {w v : World σ} {h : Handle} {link : Link}

@[simp] theorem proxy_pinging (w : World σ) (h : Handle) (link : Link) :
    (w.pinging h link).proxy h = (w.proxy h).openPing.2 :=
  proxy_put_self _ _ _

theorem has_pinging (known : w.Has h) (link : Link) : (w.pinging h link).Has h := by
  cases h with
  | standalone n => trivial
  | pooled slot => exact known

theorem serial_nextPing_lt (w : World σ) (h : Handle) (link : Link) :
    (w.nextPing h).serial < ((w.pinging h link).proxy h).opened := by
  rw [proxy_pinging]
  exact Nat.lt_succ_self _

/-- What happens to a proxy while a link has a frame. -/
theorem life_of_transmit {host : Host σ} (orderly : host.Orderly) (h : Handle) {frame : Bytes}
    {sent : Except IoFault Unit} (transmitted : host.transmit link frame w = (sent, v)) :
    Life h w v := by
  have run := orderly link frame w
  rw [transmitted] at run
  exact run.course.life h

/-- A ping that was just opened waits, and it is no caller's. -/
theorem standing_pinging (sound : (w.proxy h).Sound) (link : Link) :
    ((w.pinging h link).proxy h).standing (w.nextPing h) = .timedOut ∧
      w.nextPing h ∉ ((w.pinging h link).proxy h).callers := by
  have unanswered : w.nextPing h ∉ (w.proxy h).openPing.2.replies :=
    fun known ↦ Nat.lt_irrefl _ (sound.replies _ known)
  have own : w.nextPing h ∉ (w.proxy h).callers :=
    fun known ↦ Nat.lt_irrefl _ (sound.callers _ known)
  rw [proxy_pinging]
  refine ⟨?_, own⟩
  have waits : w.nextPing h ∈ (w.proxy h).openPing.2.session.pings := List.mem_cons_self
  rw [Proxy.standing_eq, if_neg unanswered, if_pos waits]

/-- Giving up a ping under its id takes away that ping and no other. -/
theorem modify_dropPing {ping : Ping} (opened : (w.proxy h).Opened ping) :
    w.modify h (Proxy.dropPing ping) = w.without h ping := by
  have same : (w.proxy h).session.pings.filter (fun other ↦ other.id ≠ ping.id) =
      (w.proxy h).session.pings.filter fun other ↦ other ≠ ping := by
    refine List.filter_congr fun other known ↦ ?_
    simp only [decide_eq_decide]
    exact ⟨fun ne same ↦ ne (same ▸ rfl), opened.id_ne (opened.sound.pings other known)⟩
  unfold modify without Proxy.dropPing Proxy.collect Proxy.modify Session.forget
  rw [same]
  rfl

theorem pending?_without {ping : Ping} (opened : (w.proxy h).Opened ping) :
    ((w.without h ping).session h).pending? ping.id = none := by
  unfold session without
  rw [proxy_modify_self]
  refine List.find?_eq_none.mpr fun other known ↦ ?_
  obtain ⟨known, ne⟩ := List.mem_filter.mp known
  simpa using opened.id_ne (opened.sound.pings other known) (by simpa using ne)

end

/-- The result of `verifyAlive` and all that it changes. The events `during` are those entered in
the journal while the link had the frame. -/
theorem verifyAlive_spec {host : Host σ} (orderly : host.Orderly) {w : World σ}
    (arises : w.Arises host.toProcessControl) {h : Handle} (known : w.Has h) (timeout : Duration) :
    ((w.session h).valid = false ∨ (w.session h).terminated = true →
      w.verifyAlive host h timeout = (.error .invalid, w)) ∧
    ((w.session h).valid = true → (w.session h).terminated = false →
      (w.session h).link = none → w.verifyAlive host h timeout = (.error .noLink, w)) ∧
    ∀ link, w.Pings h link → ∀ sent v,
      host.transmit link (w.pingDispatch h link).frame (w.pinging h link) = (sent, v) →
      (v.proxy h).opened < 2 ^ 64 →
        Wire.Frame.encode (.ping (w.nextPing h).id) (w.session h).channel.stream =
          .ok (w.pingDispatch h link).frame ∧
        (∀ other : Ping, other.serial < (v.proxy h).opened → other.id = (w.nextPing h).id →
          other = w.nextPing h) ∧
        (∀ fault, sent = .error fault → w.verifyAlive host h timeout =
          (.error (.transport fault), v.without h (w.nextPing h))) ∧
        (sent = .ok () → ∃ during, v.journal = during ++ (w.pinging h link).journal ∧
          w.verifyAlive host h timeout =
            (outcomeOf timeout (settled h (w.nextPing h).id during),
              (v.note (.accepted (w.pingDispatch h link))).without h (w.nextPing h))) ∧
        ((w.verifyAlive host h timeout).2.session h).pending? (w.nextPing h).id = none := by
  refine ⟨verifyAlive_of_invalid host w h timeout, verifyAlive_of_noLink host w h timeout, ?_⟩
  intro link pings sent v transmitted few
  have sound := arises.sound h
  obtain ⟨waits, own⟩ := standing_pinging sound link
  have handed := has_pinging known link
  have life := life_of_transmit orderly h transmitted
  have old := serial_nextPing_lt w h link
  have begun : ((w.pinging h link).proxy h).Sound := by
    rw [proxy_pinging]
    exact (w.proxy h).onward_openPing.sound sound
  have opened : (v.proxy h).Opened (w.nextPing h) :=
    ⟨life.sound begun, Nat.lt_of_lt_of_le old (life.onward handed).opened, Nat.le_of_lt few⟩
  have result := verifyAlive_of_pings host w h timeout pings
  rw [transmitted] at result
  refine ⟨w.encode_pingDispatch h link, ?_, ?_, ?_, ?_⟩
  · intro other earlier same
    exact Ping.eq_of_id (Nat.lt_trans earlier few) opened.serial_lt same
  · intro fault failed
    subst failed
    exact result.trans (congrArg (Prod.mk _) (modify_dropPing opened))
  · intro done
    subst done
    obtain ⟨during, journal, stands⟩ := life.standing handed begun old own waits (Nat.le_of_lt few)
    refine ⟨during, journal, ?_⟩
    rw [← stands]
    exact result.trans (congrArg (Prod.mk _) (modify_dropPing opened))
  · have left : ((w.verifyAlive host h timeout).2.session h).pings =
        ((v.without h (w.nextPing h)).session h).pings := by
      rw [← modify_dropPing opened, result]
      cases sent with
      | error fault => rfl
      | ok =>
        show (((v.note _).modify h _).proxy h).session.pings = ((v.modify h _).proxy h).session.pings
        rw [proxy_modify_self, proxy_modify_self, proxy_note]
    unfold Session.pending?
    rw [left]
    exact pending?_without opened

/-- A worker that replies at once is found alive. -/
theorem verifyAlive_answered :
    let h := Handle.standalone 0
    let host := Script.host Script.control
    let w := ((Script.connect h "worker" [{ hooks := [.reply 0] }]
      (start Settings.standard ({} : Script) ⟨0⟩ Calendar.Timestamp.epoch)).edit h (.setValid true)).2
    let link : Link := ⟨0, "worker"⟩
    let taken := host.transmit link (w.pingDispatch h link).frame (w.pinging h link)
    host.Orderly ∧ w.Arises host.toProcessControl ∧ w.Has h ∧ w.Pings h link ∧
      taken.1 = .ok () ∧ (taken.2.proxy h).opened < 2 ^ 64 ∧
      (w.verifyAlive host h Duration.zero).1 = .ok () := by
  intro h host w link taken
  have orderly : host.Orderly := Script.host_orderly Script.control
  have arises : w.Arises host.toProcessControl :=
    (reachable_start Script.control _ _ _ _).arises.later
      (.edit (.edit (.environment .start _) _ _) _ _)
  have pings : w.Pings h link := ⟨rfl, rfl, rfl⟩
  have done : taken.1 = .ok () := rfl
  have few : (taken.2.proxy h).opened < 2 ^ 64 := by decide
  obtain ⟨-, -, spec⟩ := verifyAlive_spec orderly arises (h := h) trivial Duration.zero
  obtain ⟨-, -, -, answered, -⟩ := spec link pings taken.1 taken.2 (Prod.eta taken).symm few
  obtain ⟨during, journal, result⟩ := answered done
  have events : taken.2.journal =
      [.edited h (.handle (.pingReply 1))] ++ (w.pinging h link).journal := by
    decide
  have this : during = [.edited h (.handle (.pingReply 1))] :=
    List.append_cancel_right (journal.symm.trans events)
  refine ⟨orderly, arises, trivial, pings, done, few, ?_⟩
  rw [result, this]
  rfl

end World

end Supervisor
