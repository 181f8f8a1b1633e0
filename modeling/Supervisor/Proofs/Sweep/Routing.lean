import Mathlib.Data.List.Induction
import Supervisor.Proofs.Ping.VerifyAlive
import Supervisor.Proofs.Termination

/-!
# Links that only bring in messages of the worker

While such a link has a frame, messages of the worker are taken in by the proxy whose link it is,
and nothing else happens (`Host.RoutesTo`). A ping over it is then decided in one of three ways
(`World.decision?`): the link fails, or it takes the ping and brings a reply to this very ping, or
it takes the ping and does not. `verifyAlive_of_routes` says that the result of `verifyAlive` is
that decision, that one frame was sent, and that the proxy can be pinged again afterwards as before.

No bound on the number of pings is needed: a ping that is opened takes the place of any other under
its id, and messages of the worker open none.
-/

set_option autoImplicit false
set_option relaxedAutoImplicit false

namespace Supervisor

variable {σ : Type}

/-! ### What is left alone -/

/-- The event has to do with the proxy. -/
def Event.Concerns (h : Handle) : Event → Prop
  | .fresh k | .edited k _ | .requested k _ | .ended k | .recorded k _ | .signalled k _ _
  | .probed k _ | .priorityRead k _ | .prioritySet k _ _ | .scheduleRead k _ | .scheduleSet k _ _ =>
    k = h
  | .acquired slot | .released slot => .pooled slot = h
  | .offered d | .accepted d => d.owner = h
  | .noted _ => False

def Event.offered? : Event → Option Dispatch
  | .offered d => some d
  | _ => none

namespace World

/-- The frames that links were handed after `base`, in their order. -/
def sent (w base : World σ) : List Dispatch :=
  (w.since base).reverse.filterMap Event.offered?

end World

/-- From one world to the other, only the proxies `hs` have changed and everything that was done was
done to them. The frames `sent`, in this order, were all that links were handed. -/
structure World.Within (hs : List Handle) (sent : List Dispatch) (w w' : World σ) : Prop where
  proxies : ∀ k, k ∉ hs → w'.proxy k = w.proxy k
  inUse : w'.inUse = w.inUse
  settings : w'.settings = w.settings
  events : ∃ news, w'.journal = news ++ w.journal ∧ (∀ e ∈ news, ∃ h ∈ hs, e.Concerns h) ∧
    news.reverse.filterMap Event.offered? = sent

namespace World.Within

variable {hs : List Handle} {sent more : List Dispatch} {h : Handle} {u v w : World σ}

theorem refl (hs : List Handle) (w : World σ) : w.Within hs [] w :=
  ⟨fun _ _ ↦ rfl, rfl, rfl, [], rfl, by simp, rfl⟩

theorem trans (first : u.Within hs sent v) (second : v.Within hs more w) :
    u.Within hs (sent ++ more) w := by
  obtain ⟨early, before, theirs, offered⟩ := first.events
  obtain ⟨late, after, theirs', offered'⟩ := second.events
  refine ⟨fun k other ↦ (second.proxies k other).trans (first.proxies k other),
    second.inUse.trans first.inUse, second.settings.trans first.settings, late ++ early, ?_, ?_, ?_⟩
  · rw [after, before, List.append_assoc]
  · exact fun e told ↦ (List.mem_append.mp told).elim (theirs' e) (theirs e)
  · rw [List.reverse_append, List.filterMap_append, offered, offered']

theorem sent_eq (within : u.Within hs sent v) : v.sent u = sent := by
  obtain ⟨news, journal, -, offered⟩ := within.events
  rw [World.sent, since_eq journal, offered]

/-- To what was done, something is added in which no frame was sent. -/
theorem append_nil (first : u.Within hs sent v) (second : v.Within hs [] w) :
    u.Within hs sent w := by
  have whole := first.trans second
  rwa [List.append_nil] at whole

theorem mono {hs' : List Handle} (within : u.Within hs sent v) (more : hs ⊆ hs') :
    u.Within hs' sent v := by
  obtain ⟨news, journal, theirs, offered⟩ := within.events
  refine ⟨fun k other ↦ within.proxies k fun known ↦ other (more known), within.inUse,
    within.settings, news, journal, fun e told ↦ ?_, offered⟩
  obtain ⟨h, known, concerns⟩ := theirs e told
  exact ⟨h, more known, concerns⟩

theorem modify (w : World σ) (h : Handle) (f : Proxy → Proxy) : w.Within [h] [] (w.modify h f) :=
  ⟨fun _ other ↦ proxy_modify_of_ne w f (by simpa using other), rfl, rfl, [], rfl, by simp, rfl⟩

theorem note (w : World σ) {e : Event} (concerns : e.Concerns h) :
    w.Within [h] e.offered?.toList (w.note e) := by
  refine ⟨fun _ _ ↦ rfl, rfl, rfl, [e], rfl, by simpa using concerns, ?_⟩
  cases offered : e.offered? with
  | none => simp [offered]
  | some d => simp [offered]

theorem call {α : Type} (w : World σ) {e : Event} (concerns : e.Concerns h)
    (silent : e.offered? = none) (f : σ → α × σ) : w.Within [h] [] (w.call e f).2 := by
  have noted := note w concerns
  rw [silent] at noted
  exact ⟨noted.proxies, noted.inUse, noted.settings, noted.events⟩

theorem edit (w : World σ) (h : Handle) (e : Edit) : w.Within [h] [] (w.edit h e).2 :=
  (modify w h fun p ↦ (e.apply p).2).trans (note _ (e := .edited h e) rfl)

theorem terminate (control : ProcessControl σ) (h : Handle) (w : World σ) :
    w.Within [h] [] (w.terminate control h).2 := by
  unfold World.terminate
  dsimp only
  split
  · exact .refl _ _
  have marked : w.Within [h] [] ((w.modify h Proxy.markTerminated).note (.ended h)) :=
    (modify w h _).trans (note _ (e := .ended h) rfl)
  cases (w.proxy h).session.pid with
  | none => exact marked.trans (modify _ h _)
  | some pid =>
    exact (marked.trans (call _ (e := .signalled h pid _) rfl rfl _)).trans (modify _ h _)

end World.Within

/-! ### Messages of the worker -/

/-- The edit takes in messages of the worker. -/
def Edit.FromWorker : Edit → Prop
  | .handle _ | .route _ => True
  | _ => False

/-- The one is as good as the other for those who want to ping it. -/
structure Proxy.Steady (p p' : Proxy) : Prop extends p.FlagsAgree p' where
  link : p'.session.link = p.session.link
  onward : p.Onward p'

/-- From the one to the other, no more than messages of the worker was taken in. -/
structure Proxy.Heard (p p' : Proxy) : Prop extends p.Steady p' where
  opened : p'.opened = p.opened
  pings : p'.session.pings ⊆ p.session.pings

namespace Proxy

variable {p p' p'' : Proxy}

theorem Steady.refl (p : Proxy) : p.Steady p :=
  ⟨.refl p, rfl, .refl p⟩

theorem Steady.trans (first : p.Steady p') (second : p'.Steady p'') : p.Steady p'' :=
  ⟨first.toFlagsAgree.trans second.toFlagsAgree, second.link.trans first.link,
    first.onward.trans second.onward⟩

theorem steady_openPing (p : Proxy) : p.Steady p.openPing.2 :=
  ⟨⟨rfl, rfl, rfl⟩, rfl, p.onward_openPing⟩

theorem steady_dropPing (p : Proxy) (ping : Ping) : p.Steady (p.dropPing ping) :=
  ⟨⟨rfl, rfl, rfl⟩, rfl, p.onward_dropPing ping⟩

theorem Heard.refl (p : Proxy) : p.Heard p :=
  ⟨.refl p, rfl, List.Subset.refl _⟩

theorem Heard.trans (first : p.Heard p') (second : p'.Heard p'') : p.Heard p'' :=
  ⟨first.toSteady.trans second.toSteady, second.opened.trans first.opened,
    List.Subset.trans second.pings first.pings⟩

theorem heard_handle (p : Proxy) (m : Message) : p.Heard (p.handle m) := by
  refine ⟨⟨p.flagsAgree_handle m, ?_, p.onward_handle m⟩, ?_, p.pings_handle_subset m⟩
  · cases m with
    | pingReply id =>
      simp only [handle, deliver]
      split
      · rfl
      · rfl
    | _ => rfl
  · cases m with
    | pingReply id =>
      simp only [handle, deliver]
      split
      · rfl
      · rfl
    | _ => rfl

theorem heard_route (p : Proxy) (source : Wire.Source) : p.Heard (p.route source).2 := by
  rw [route_eq]
  generalize (Wire.Frame.readAll source).1 = frames
  induction frames generalizing p with
  | nil => exact .refl p
  | cons frame frames ih => exact (p.heard_handle frame.1).trans (ih _)

end Proxy

namespace Edit.FromWorker

variable {e : Edit} {p : Proxy} {ping : Ping}

theorem heard (fromWorker : e.FromWorker) (p : Proxy) : p.Heard (e.apply p).2 := by
  cases e with
  | handle m => exact p.heard_handle m
  | route source => exact p.heard_route source
  | _ => exact fromWorker.elim

theorem standing_apply (fromWorker : e.FromWorker) (sole : p.Sole ping) :
    (e.apply p).2.standing ping = (p.standing ping).settle (e.settlement? ping.id) := by
  cases e with
  | handle m => exact sole.standing_handle m
  | route source => exact sole.standing_route source
  | _ => exact fromWorker.elim

/-- All that messages of the worker can do to a ping is to answer it. -/
theorem settlement?_eq (fromWorker : e.FromWorker) (id : PingId) :
    e.settlement? id = none ∨ e.settlement? id = some .answered := by
  cases e with
  | handle | route =>
    simp only [settlement?]
    split
    · exact .inr rfl
    · exact .inl rfl
  | _ => exact fromWorker.elim

end Edit.FromWorker

namespace World

/-- Does the edits to the proxy, one after the other. -/
def takeIn (h : Handle) (edits : List Edit) (w : World σ) : World σ :=
  edits.foldl (fun u e ↦ (u.edit h e).2) w

variable {h : Handle} {edits : List Edit}

theorem takeIn_append (w : World σ) (e : Edit) :
    w.takeIn h (edits ++ [e]) = ((w.takeIn h edits).edit h e).2 := by
  simp [takeIn]

theorem journal_takeIn (w : World σ) :
    (w.takeIn h edits).journal = (edits.map (.edited h)).reverse ++ w.journal := by
  induction edits using List.reverseRecOn with
  | nil => rfl
  | append_singleton edits e ih =>
    rw [takeIn_append, List.map_append, List.reverse_append]
    exact congrArg (.edited h e :: ·) ih

theorem within_takeIn (w : World σ) : w.Within [h] [] (w.takeIn h edits) := by
  induction edits using List.reverseRecOn with
  | nil => exact .refl _ _
  | append_singleton edits e ih =>
    rw [takeIn_append]
    exact ih.trans (.edit _ h e)

theorem heard_takeIn (w : World σ) (fromWorker : ∀ e ∈ edits, e.FromWorker) :
    (w.proxy h).Heard ((w.takeIn h edits).proxy h) := by
  induction edits using List.reverseRecOn with
  | nil => exact .refl _
  | append_singleton edits e ih =>
    rw [takeIn_append, proxy_edit_self]
    have last : e.FromWorker := fromWorker e (by simp)
    exact (ih fun e he ↦ fromWorker e (List.mem_append_left _ he)).trans (last.heard _)

/-- A ping that waits, alone under its id, is settled by the first reply to it. -/
theorem standing_takeIn (w : World σ) (fromWorker : ∀ e ∈ edits, e.FromWorker) {ping : Ping}
    (sole : (w.proxy h).Sole ping) (waits : (w.proxy h).standing ping = .timedOut) :
    ((w.takeIn h edits).proxy h).standing ping =
      settled h ping.id (edits.map (.edited h)).reverse := by
  induction edits using List.reverseRecOn with
  | nil => exact waits
  | append_singleton edits e ih =>
    have early : ∀ e ∈ edits, e.FromWorker := fun e he ↦ fromWorker e (List.mem_append_left _ he)
    have last : e.FromWorker := fromWorker e (by simp)
    have still := sole.of_subset (w.heard_takeIn early).pings
    rw [takeIn_append, proxy_edit_self, last.standing_apply still, ih early, List.map_append,
      List.reverse_append]
    show _ = settled h ping.id (.edited h e :: (edits.map (.edited h)).reverse)
    rw [settled_cons, Event.settlement?, if_pos rfl]

/-- One of the events is that the proxy takes in a reply under the id. -/
def answeredAmong (h : Handle) (id : PingId) (events : List Event) : Bool :=
  events.any fun e ↦ e.settlement? h id = some .answered

theorem answeredAmong_cons (h : Handle) (id : PingId) (e : Event) (events : List Event) :
    answeredAmong h id (e :: events) =
      (decide (e.settlement? h id = some .answered) || answeredAmong h id events) :=
  rfl

/-- What settles a ping while messages of the worker come in is a reply to it. -/
theorem settled_takeIn (fromWorker : ∀ e ∈ edits, e.FromWorker) (id : PingId) :
    settled h id (edits.map (.edited h)).reverse =
      if answeredAmong h id (edits.map (.edited h)).reverse then .answered else .timedOut := by
  induction edits using List.reverseRecOn with
  | nil => rfl
  | append_singleton edits e ih =>
    have early : ∀ e ∈ edits, e.FromWorker := fun e he ↦ fromWorker e (List.mem_append_left _ he)
    have last : e.FromWorker := fromWorker e (by simp)
    have told : (Event.edited h e).settlement? h id = e.settlement? id := if_pos rfl
    rw [List.map_append, List.reverse_append]
    show settled h id (.edited h e :: (edits.map (.edited h)).reverse) =
      if answeredAmong h id (.edited h e :: (edits.map (.edited h)).reverse) then _ else _
    rw [settled_cons, ih early, answeredAmong_cons, told]
    rcases last.settlement?_eq id with silent | answers
    · simp [silent]
    · rw [answers]
      cases answeredAmong h id (edits.map (.edited h)).reverse with
      | false => rfl
      | true => rfl

end World

/-! ### A ping over such a link -/

/-- Whatever frame the link is handed, and in whatever world, it only has messages of the worker
taken in by the proxy meanwhile. Its environment, the time and the date go on as they like. -/
def Host.RoutesTo (host : Host σ) (link : Link) (h : Handle) : Prop :=
  ∀ frame w, ∃ edits : List Edit, (∀ e ∈ edits, e.FromWorker) ∧
    (host.transmit link frame w).2.registry = (w.takeIn h edits).registry ∧
    (host.transmit link frame w).2.inUse = (w.takeIn h edits).inUse ∧
    (host.transmit link frame w).2.journal = (w.takeIn h edits).journal

namespace World

/-- What decides a ping of the session over the link: a fault of the link, or a reply with the
ping's own id that is taken in before the link is done with it. -/
def decision? (host : Host σ) (h : Handle) (link : Link) (w : World σ) :
    Option (Except IoFault Unit) :=
  match host.transmit link (w.pingDispatch h link).frame (w.pinging h link) with
  | (.error fault, _) => some (.error fault)
  | (.ok (), v) =>
    if answeredAmong h (w.nextPing h).id (v.since (w.pinging h link)) then some (.ok ()) else none

/-- How a ping is reported that was decided so, or not at all. -/
def reported (timeout : Duration) : Option (Except IoFault Unit) → Except Fault Unit
  | some sent => sent.mapError .transport
  | none => .error (.timeout timeout)

/-- A ping has been tried, and another one can be tried. -/
structure Tried (h : Handle) (link : Link) (w w' : World σ) : Prop where
  within : w.Within [h] [w.pingDispatch h link] w'
  steady : (w.proxy h).Steady (w'.proxy h)
  opened : (w'.proxy h).opened = (w.proxy h).opened + 1

variable {host : Host σ} {h : Handle} {link : Link} {w : World σ}

/-- A ping that was just opened has its id for itself. -/
theorem sole_pinging (w : World σ) (h : Handle) (link : Link) :
    ((w.pinging h link).proxy h).Sole (w.nextPing h) := by
  intro other pending same
  rw [proxy_pinging] at pending
  rcases List.mem_cons.mp pending with this | earlier
  · exact this
  · simp only [Session.pings_forget, List.mem_filter, decide_eq_true_eq] at earlier
    exact absurd same earlier.2

theorem within_pinging (w : World σ) (h : Handle) (link : Link) :
    w.Within [h] [w.pingDispatch h link] (w.pinging h link) :=
  (Within.modify w h fun p ↦ p.openPing.2).trans (.note _ (e := .offered (w.pingDispatch h link)) rfl)

/-- What the link leaves behind is dealt with. -/
theorem Tried.of_heard {v : World σ} (within : (w.pinging h link).Within [h] [] v)
    (heard : ((w.pinging h link).proxy h).Heard (v.proxy h)) :
    w.Tried h link (v.modify h (Proxy.dropPing (w.nextPing h))) := by
  rw [proxy_pinging] at heard
  refine ⟨((within_pinging w h link).append_nil within).append_nil (.modify v h _), ?_, ?_⟩
  · rw [proxy_modify_self]
    exact ((w.proxy h).steady_openPing.trans heard.toSteady).trans (Proxy.steady_dropPing _ _)
  · rw [proxy_modify_self]
    exact heard.opened

theorem verifyAlive_of_routes (routes : host.RoutesTo link h) (pings : w.Pings h link)
    (sound : (w.proxy h).Sound) (timeout : Duration) :
    (w.verifyAlive host h timeout).1 = reported timeout (w.decision? host h link) ∧
      w.Tried h link (w.verifyAlive host h timeout).2 := by
  obtain ⟨edits, fromWorker, registry, inUse, journal⟩ :=
    routes (w.pingDispatch h link).frame (w.pinging h link)
  rw [verifyAlive_of_pings host w h timeout pings]
  unfold decision?
  rcases transmitted : host.transmit link (w.pingDispatch h link).frame (w.pinging h link) with
    ⟨sent, v⟩
  rw [transmitted] at registry inUse journal
  have proxies (k : Handle) : v.proxy k = ((w.pinging h link).takeIn h edits).proxy k :=
    congrArg (Registry.get · k) registry
  have taken : (w.pinging h link).Within [h] [] ((w.pinging h link).takeIn h edits) :=
    within_takeIn _
  have within : (w.pinging h link).Within [h] [] v := by
    refine ⟨fun k other ↦ (proxies k).trans (taken.proxies k other), inUse.trans taken.inUse, ?_, ?_⟩
    · exact (congrArg (·.blank.settings) registry).trans taken.settings
    · rw [show v.journal = _ from journal]
      exact taken.events
  have heard : ((w.pinging h link).proxy h).Heard (v.proxy h) := by
    rw [proxies]
    exact heard_takeIn _ fromWorker
  cases sent with
  | error fault => exact ⟨rfl, .of_heard within heard⟩
  | ok =>
    have accepted := within.append_nil (.note v (e := .accepted (w.pingDispatch h link)) rfl)
    refine ⟨?_, .of_heard accepted heard⟩
    have stands := standing_takeIn _ fromWorker (sole_pinging w h link)
      (standing_pinging sound link).1
    rw [← proxies, settled_takeIn fromWorker] at stands
    have told : v.since (w.pinging h link) = (edits.map (.edited h)).reverse :=
      since_eq (journal.trans (journal_takeIn _))
    show outcomeOf timeout ((v.proxy h).standing (w.nextPing h)) =
      reported timeout (if answeredAmong h _ (v.since (w.pinging h link)) then some (.ok ()) else none)
    rw [stands, told]
    split
    · rfl
    · rfl

end World

end Supervisor
