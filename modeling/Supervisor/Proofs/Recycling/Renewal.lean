import Supervisor.Proofs.Journal.Turn
import Supervisor.Proofs.Ping.Standing

/-!
# A proxy that has been used before, and a new one

Of the sessions that a proxy held before it was cleared nothing is left but the number of its pings
and what earlier callers still hold. So it goes on as a new proxy does, with every ping that many
places later. `Proxy.Renewed` compares the two, and `Proxy.Renewed.apply` says that edits keep them
alike when those that name a ping name the later one. What earlier callers do with their own pings
has no effect that the new session could tell (`Proxy.Renewed.stale`), as long as ids do not recur.
-/

set_option autoImplicit false
set_option relaxedAutoImplicit false

namespace Supervisor

/-! ### Pings that many places later -/

def Ping.later (n : Nat) (ping : Ping) : Ping :=
  ⟨n + ping.serial⟩

def PingId.later (n : Nat) (id : PingId) : PingId :=
  .ofNat n + id

/-- The message with the id of the later ping, if it has one. -/
def Message.later (n : Nat) : Message → Message
  | .ping id => .ping (PingId.later n id)
  | .pingReply id => .pingReply (PingId.later n id)
  | m => m

/-- The session with later pings, and created at another time. -/
def Session.later (n : Nat) (createdAt : Calendar.Timestamp) (s : Session) : Session :=
  { s with pings := s.pings.map (Ping.later n), createdAt := createdAt }

variable {n : Nat} {ping other : Ping} {id id' : PingId}

theorem Ping.later_inj : ping.later n = other.later n ↔ ping = other := by
  obtain ⟨serial⟩ := ping
  obtain ⟨serial'⟩ := other
  simp [later]

theorem Ping.later_ne (early : ping.serial < n) : other.later n ≠ ping := by
  rintro rfl
  exact Nat.not_lt_of_le (Nat.le_add_right n other.serial) early

theorem PingId.later_inj : PingId.later n id = PingId.later n id' ↔ id = id' := by
  simp [later]

theorem Ping.id_later (n : Nat) (ping : Ping) : (ping.later n).id = PingId.later n ping.id := by
  show UInt64.ofNat (n + ping.serial + 1) = UInt64.ofNat n + UInt64.ofNat (ping.serial + 1)
  rw [← UInt64.ofNat_add, Nat.add_assoc]

@[simp] theorem Ping.later_zero (ping : Ping) : ping.later 0 = ping := by
  obtain ⟨serial⟩ := ping
  simp [later]

namespace Session

variable (s : Session) (createdAt : Calendar.Timestamp)

theorem pending?_later (id : PingId) : (s.later n createdAt).pending? (PingId.later n id) =
    (s.pending? id).map (Ping.later n) := by
  unfold pending? later
  rw [List.find?_map]
  congr 2
  funext ping
  simp [Ping.id_later, PingId.later_inj]

theorem forget_later (id : PingId) : (s.later n createdAt).forget (PingId.later n id) =
    (s.forget id).later n createdAt := by
  unfold forget later
  congr 1
  rw [List.filter_map]
  congr 2
  funext ping
  simp [Ping.id_later, PingId.later_inj]

theorem register_later (ping : Ping) : (s.later n createdAt).register (ping.later n) =
    (s.register ping).later n createdAt := by
  have forgotten := congrArg Session.pings (s.forget_later (n := n) createdAt ping.id)
  unfold register
  rw [Ping.id_later, forgotten]
  rfl

end Session

/-! ### The two proxies -/

/-- The proxy `p`, used before, is what the new one `p'` is, with every ping `n` places later. What
else it knows are pings of earlier callers. -/
structure Proxy.Renewed (n : Nat) (p p' : Proxy) : Prop where
  settings : p.settings = p'.settings
  session : ∃ createdAt, p.session = p'.session.later n createdAt
  opened : p.opened = n + p'.opened
  replies : ∀ ping : Ping, ping.later n ∈ p.replies ↔ ping ∈ p'.replies
  callers : ∀ ping : Ping, ping.later n ∈ p.callers ↔ ping ∈ p'.callers
  sound : p'.Sound

/-- The edits are the same, except that the first names the later pings. -/
inductive Edit.Echoes (n : Nat) : Edit → Edit → Prop
  | same {e : Edit} (quiet : e.Quiet) : Echoes n e e
  | openPing : Echoes n .openPing .openPing
  | awaitPing (ping : Ping) : Echoes n (.awaitPing (ping.later n)) (.awaitPing ping)
  | dropPing (ping : Ping) : Echoes n (.dropPing (ping.later n)) (.dropPing ping)
  | deletePing (id : PingId) : Echoes n (.deletePing (PingId.later n id)) (.deletePing id)
  | deliver (id : PingId) : Echoes n (.deliver (PingId.later n id)) (.deliver id)
  | handle (m : Message) : Echoes n (.handle (m.later n)) (.handle m)
  | route {source source' : Wire.Source}
      (messages : (Wire.Frame.readAll source).1.map Prod.fst =
        ((Wire.Frame.readAll source').1.map Prod.fst).map (Message.later n))
      (fault : (Wire.Frame.readAll source).2.1 = (Wire.Frame.readAll source').2.1) :
      Echoes n (.route source) (.route source')

/-- The answer with the later ping, if it is one. -/
def Edit.Answer.later (n : Nat) : Edit.Answer → Edit.Answer
  | .ping ping => .ping (ping.later n)
  | answer => answer

namespace Proxy

variable {p p' : Proxy}

namespace Renewed

theorem pending?_later (renewed : p.Renewed n p') (id : PingId) :
    p.session.pending? (PingId.later n id) = (p'.session.pending? id).map (Ping.later n) := by
  obtain ⟨createdAt, session⟩ := renewed.session
  rw [session, Session.pending?_later]

theorem mem_pings_later (renewed : p.Renewed n p') (ping : Ping) :
    ping.later n ∈ p.session.pings ↔ ping ∈ p'.session.pings := by
  obtain ⟨createdAt, session⟩ := renewed.session
  rw [session]
  simp [Session.later, Ping.later_inj]

/-- Nothing but the sessions changes, and these alike. -/
theorem withSession (renewed : p.Renewed n p') {s s' : Session} (createdAt : Calendar.Timestamp)
    (session : s = s'.later n createdAt) (pings : s'.pings ⊆ p'.session.pings) :
    { p with session := s }.Renewed n { p' with session := s' } where
  settings := renewed.settings
  session := ⟨createdAt, session⟩
  opened := renewed.opened
  replies := renewed.replies
  callers := renewed.callers
  sound := ⟨fun ping pending ↦ renewed.sound.pings ping (pings pending), renewed.sound.replies,
    renewed.sound.callers⟩

theorem forget (renewed : p.Renewed n p') (id : PingId) :
    (p.modify (Session.forget (PingId.later n id))).Renewed n (p'.modify (Session.forget id)) := by
  obtain ⟨createdAt, session⟩ := renewed.session
  refine renewed.withSession createdAt ?_ Session.forget_pings_subset
  rw [session, Session.forget_later]

theorem collect (renewed : p.Renewed n p') (ping : Ping) :
    (p.collect (ping.later n)).Renewed n (p'.collect ping) where
  settings := renewed.settings
  session := renewed.session
  opened := renewed.opened
  replies other := by simp [Proxy.collect, renewed.replies, Ping.later_inj]
  callers := renewed.callers
  sound := (p'.onward_collect ping).sound renewed.sound

theorem openPing (renewed : p.Renewed n p') :
    p.openPing.1 = p'.openPing.1.later n ∧ p.openPing.2.Renewed n p'.openPing.2 := by
  have next : (⟨p.opened⟩ : Ping) = Ping.later n ⟨p'.opened⟩ := congrArg Ping.mk renewed.opened
  obtain ⟨createdAt, session⟩ := renewed.session
  refine ⟨next, renewed.settings, ⟨createdAt, ?_⟩, congrArg Nat.succ renewed.opened,
    renewed.replies, renewed.callers, p'.onward_openPing.sound renewed.sound⟩
  show p.session.register ⟨p.opened⟩ = (p'.session.register ⟨p'.opened⟩).later n createdAt
  rw [next, session, Session.register_later]

theorem deliver (renewed : p.Renewed n p') (id : PingId) :
    (p.deliver (PingId.later n id)).1 = (p'.deliver id).1 ∧
      (p.deliver (PingId.later n id)).2.Renewed n (p'.deliver id).2 := by
  have pending := renewed.pending?_later id
  have sound := (p'.onward_deliver id).sound renewed.sound
  have forgotten := renewed.forget id
  unfold Proxy.deliver at sound ⊢
  cases found : p'.session.pending? id with
  | none =>
    rw [found, Option.map_none] at pending
    rw [pending]
    exact ⟨rfl, renewed⟩
  | some ping =>
    rw [found] at sound
    rw [found, Option.map_some] at pending
    rw [pending]
    exact ⟨rfl, forgotten.settings, forgotten.session, forgotten.opened,
      fun other ↦ by simp [Ping.later_inj, renewed.replies], forgotten.callers, sound⟩

theorem awaitPing (renewed : p.Renewed n p') (ping : Ping) :
    (p.awaitPing (ping.later n)).1 = (p'.awaitPing ping).1 ∧
      (p.awaitPing (ping.later n)).2.Renewed n (p'.awaitPing ping).2 := by
  unfold Proxy.awaitPing
  simp only [renewed.replies, renewed.mem_pings_later]
  split
  · exact ⟨rfl, renewed.collect ping⟩
  split
  · exact ⟨rfl, renewed⟩
  · exact ⟨rfl, renewed⟩

theorem dropPing (renewed : p.Renewed n p') (ping : Ping) :
    (p.dropPing (ping.later n)).Renewed n (p'.dropPing ping) := by
  have forgotten := renewed.forget ping.id
  rw [← Ping.id_later] at forgotten
  exact forgotten.collect ping

theorem handle (renewed : p.Renewed n p') (m : Message) :
    (p.handle (m.later n)).Renewed n (p'.handle m) := by
  cases m with
  | pingReply id => exact (renewed.deliver id).2
  | status code =>
    obtain ⟨createdAt, session⟩ := renewed.session
    refine renewed.withSession createdAt ?_ (List.Subset.refl _)
    rw [session]
    rfl
  | _ => exact renewed

theorem route (renewed : p.Renewed n p') {source source' : Wire.Source}
    (messages : (Wire.Frame.readAll source).1.map Prod.fst =
      ((Wire.Frame.readAll source').1.map Prod.fst).map (Message.later n)) :
    (p.route source).2.Renewed n (p'.route source').2 := by
  have handled (ms : List Message) {q q' : Proxy} (alike : q.Renewed n q') :
      ((ms.map (Message.later n)).foldl (fun q m ↦ q.handle m) q).Renewed n
        (ms.foldl (fun q m ↦ q.handle m) q') := by
    induction ms generalizing q q' with
    | nil => exact alike
    | cons m ms ih => exact ih (alike.handle m)
  have folded (q : Proxy) (frames : List (Message × StreamId)) :
      frames.foldl (fun q frame ↦ q.handle frame.1) q =
        (frames.map Prod.fst).foldl (fun q m ↦ q.handle m) q := by
    rw [List.foldl_map]
  rw [route_eq, route_eq, folded, folded, messages]
  exact handled _ renewed

end Renewed

end Proxy

/-! ### Edits -/

theorem Session.setValid_later (s : Session) (createdAt : Calendar.Timestamp) (value : Bool) :
    (s.later n createdAt).setValid value = (s.setValid value).later n createdAt := by
  unfold setValid
  split
  · show (if s.invalidated then _ else _) = _
    split
    · rfl
    · rfl
  · rfl

theorem Session.setStaged_later (s : Session) (createdAt : Calendar.Timestamp) (kind : PayloadKind)
    (content : Option Bytes) : (s.later n createdAt).setStaged kind content =
      (s.setStaged kind content).later n createdAt := by
  cases kind <;> rfl

/-- An edit that has nothing to do with pings does not see that they are later. -/
theorem Edit.apply_later {e : Edit} (quiet : e.Quiet) {p p' : Proxy}
    {createdAt : Calendar.Timestamp} (session : p.session = p'.session.later n createdAt) :
    (e.apply p).1 = (e.apply p').1.later n ∧
      (e.apply p).2.session = (e.apply p').2.session.later n createdAt := by
  obtain ⟨settings, s, opened, replies, callers⟩ := p
  dsimp only at session
  subst session
  cases e with
  | openPing | awaitPing | dropPing | deletePing | deliver | handle | route => exact quiet.elim
  | setLabel label text => cases label <;> exact ⟨rfl, rfl⟩
  | setValid value => exact ⟨rfl, p'.session.setValid_later createdAt value⟩
  | stage kind content => exact ⟨rfl, p'.session.setStaged_later createdAt kind _⟩
  | unstage kind => exact ⟨rfl, p'.session.setStaged_later createdAt kind none⟩
  | _ => exact ⟨rfl, rfl⟩

namespace Proxy.Renewed

variable {p p' : Proxy} {e e' : Edit}

theorem apply_quiet (renewed : p.Renewed n p') (quiet : e.Quiet) :
    (e.apply p).1 = (e.apply p').1.later n ∧ (e.apply p).2.Renewed n (e.apply p').2 := by
  obtain ⟨createdAt, session⟩ := renewed.session
  obtain ⟨answer, session⟩ := Edit.apply_later quiet session
  have agree := Edit.pingsAgree_of_quiet quiet p
  have agree' := Edit.pingsAgree_of_quiet quiet p'
  refine ⟨answer, ?_, ⟨createdAt, session⟩, ?_, fun ping ↦ ?_, fun ping ↦ ?_, ?_⟩
  · rw [e.settings_apply, e.settings_apply, renewed.settings]
  · rw [agree.opened, agree'.opened, renewed.opened]
  · rw [agree.replies, agree'.replies, renewed.replies]
  · rw [agree.callers, agree'.callers, renewed.callers]
  · exact (e.onward p').sound renewed.sound

/-- Edits keep the two proxies alike, and are answered alike. -/
theorem apply (renewed : p.Renewed n p') (echoes : e.Echoes n e') :
    (e.apply p).1 = (e'.apply p').1.later n ∧ (e.apply p).2.Renewed n (e'.apply p').2 := by
  cases echoes with
  | same quiet => exact renewed.apply_quiet quiet
  | openPing =>
    obtain ⟨ping, opened⟩ := renewed.openPing
    refine ⟨congrArg Edit.Answer.ping ping, opened.settings, opened.session, opened.opened,
      opened.replies, fun other ↦ ?_, p'.onward_openPingForCaller.sound renewed.sound⟩
    show other.later n ∈ p.openPing.1 :: p.callers ↔ other ∈ p'.openPing.1 :: p'.callers
    rw [ping, List.mem_cons, List.mem_cons, Ping.later_inj, renewed.callers]
  | awaitPing ping =>
    obtain ⟨result, after⟩ := renewed.awaitPing ping
    simp only [Edit.apply, awaitCallersPing, renewed.callers]
    split
    · exact ⟨congrArg Edit.Answer.awaited result, after⟩
    · exact ⟨rfl, renewed⟩
  | dropPing ping =>
    have dropped := renewed.dropPing ping
    refine ⟨rfl, ?_⟩
    have sound := (p'.onward_dropCallersPing ping).sound renewed.sound
    simp only [Edit.apply]
    unfold dropCallersPing at sound ⊢
    simp only [renewed.callers]
    split
    next theirs =>
      rw [if_pos theirs] at sound
      exact ⟨dropped.settings, dropped.session, dropped.opened, dropped.replies,
        fun other ↦ by simp [Ping.later_inj, renewed.callers], sound⟩
    · exact renewed
  | deletePing id =>
    have pending := renewed.pending?_later id
    refine ⟨congrArg Edit.Answer.flag ?_, renewed.forget id⟩
    rw [pending, Option.isSome_map]
  | deliver id =>
    obtain ⟨delivered, after⟩ := renewed.deliver id
    exact ⟨congrArg Edit.Answer.flag delivered, after⟩
  | handle m => exact ⟨rfl, renewed.handle m⟩
  | @route source source' messages fault =>
    have count := congrArg List.length messages
    simp only [List.length_map] at count
    have answer : (p.route source).1 = (p'.route source').1 := by
      rw [fst_route, fst_route, fault, count]
    exact ⟨congrArg Edit.Answer.routed answer, renewed.route messages⟩

theorem reset (renewed : p.Renewed n p') (createdAt : Calendar.Timestamp) :
    (p.reset createdAt).Renewed n (p'.reset createdAt) := by
  refine renewed.withSession createdAt ?_ (List.nil_subset _)
  rw [renewed.settings]
  rfl

theorem markTerminated (renewed : p.Renewed n p') :
    p.markTerminated.Renewed n p'.markTerminated := by
  obtain ⟨createdAt, session⟩ := renewed.session
  refine renewed.withSession createdAt ?_ (List.Subset.refl _)
  rw [session]
  rfl

theorem finishTermination (renewed : p.Renewed n p') :
    p.finishTermination.Renewed n p'.finishTermination := by
  obtain ⟨createdAt, session⟩ := renewed.session
  refine renewed.withSession createdAt ?_ (List.nil_subset _)
  rw [session]
  rfl

/-- A proxy that has just been cleared goes on as one that has just been made. -/
theorem of_reset (sound : p.Sound) (made cleared : Calendar.Timestamp) (id : SessionId)
    (blank : p.session = { Session.new p.settings cleared with id := id }) :
    p.Renewed p.opened ((new p.settings made).modify fun s ↦ { s with id := id }) := by
  -- Every ping that is still known is from before, and no later one is.
  have none {pings : List Ping} (old : ∀ ping ∈ pings, ping.serial < p.opened) (ping : Ping) :
      ping.later p.opened ∉ pings := by
    intro found
    have this : p.opened + ping.serial < p.opened := old _ found
    omega
  have made := sound_new p.settings made
  refine ⟨rfl, ⟨cleared, blank⟩, rfl, fun ping ↦ ?_, fun ping ↦ ?_,
    ⟨made.pings, made.replies, made.callers⟩⟩
  · exact iff_of_false (none sound.replies ping) List.not_mem_nil
  · exact iff_of_false (none sound.callers ping) List.not_mem_nil

/-- A proxy goes on as it does itself. -/
theorem refl (sound : p.Sound) : p.Renewed 0 p := by
  refine ⟨rfl, ⟨p.session.createdAt, ?_⟩, (Nat.zero_add _).symm, by simp, by simp, sound⟩
  have same : p.session.pings.map (Ping.later 0) = p.session.pings := by
    simp [funext Ping.later_zero]
  unfold Session.later
  rw [same]

end Proxy.Renewed

/-! ### Earlier callers -/

/-- What an earlier caller can still do: wait for an earlier ping, give it up or delete it, or have
replies delivered to such pings. -/
inductive Edit.Stale (n : Nat) : Edit → Prop
  | awaitPing {ping : Ping} (early : ping.serial < n) : Stale n (.awaitPing ping)
  | dropPing {ping : Ping} (early : ping.serial < n) : Stale n (.dropPing ping)
  | deletePing {ping : Ping} (early : ping.serial < n) : Stale n (.deletePing ping.id)
  | deliver {ping : Ping} (early : ping.serial < n) : Stale n (.deliver ping.id)
  | handle {ping : Ping} (early : ping.serial < n) : Stale n (.handle (.pingReply ping.id))
  | route {source : Wire.Source} (early : ∀ m ∈ (Wire.Frame.readAll source).1.map Prod.fst,
      ∃ ping : Ping, ping.serial < n ∧ m = .pingReply ping.id) : Stale n (.route source)

namespace Proxy.Renewed

variable {p p' : Proxy} {e : Edit}

/-- No ping that waits has the id of an earlier one. -/
theorem id_ne_of_early (renewed : p.Renewed n p') (few : 0 < n → p.opened ≤ 2 ^ 64)
    (early : other.serial < n) (pending : ping ∈ p.session.pings) : ping.id ≠ other.id := by
  obtain ⟨createdAt, session⟩ := renewed.session
  rw [session] at pending
  obtain ⟨new, waits, rfl⟩ := List.mem_map.mp pending
  have below : n + new.serial < p.opened := by
    rw [renewed.opened]
    exact Nat.add_lt_add_left (renewed.sound.pings new waits) n
  intro same
  have bound := few (Nat.zero_lt_of_lt early)
  have this := Ping.eq_of_id (Nat.lt_of_lt_of_le below bound) (by omega) same
  have serial : n + new.serial = other.serial := congrArg Ping.serial this
  omega

theorem pending?_of_early (renewed : p.Renewed n p') (few : 0 < n → p.opened ≤ 2 ^ 64)
    (early : ping.serial < n) : p.session.pending? ping.id = none :=
  List.find?_eq_none.mpr fun _ pending same ↦
    renewed.id_ne_of_early few early pending (by simpa using same)

theorem forget_of_early (renewed : p.Renewed n p') (few : 0 < n → p.opened ≤ 2 ^ 64)
    (early : ping.serial < n) : p.session.forget ping.id = p.session := by
  have kept : p.session.pings.filter (fun other ↦ other.id ≠ ping.id) = p.session.pings :=
    List.filter_eq_self.mpr fun _ pending ↦
      decide_eq_true (renewed.id_ne_of_early few early pending)
  unfold Session.forget
  rw [kept]

theorem deliver_of_early (renewed : p.Renewed n p') (few : 0 < n → p.opened ≤ 2 ^ 64)
    (early : ping.serial < n) : p.deliver ping.id = (false, p) := by
  unfold Proxy.deliver
  rw [renewed.pending?_of_early few early]

theorem route_of_early (renewed : p.Renewed n p') (few : 0 < n → p.opened ≤ 2 ^ 64)
    {source : Wire.Source}
    (early : ∀ m ∈ (Wire.Frame.readAll source).1.map Prod.fst,
      ∃ ping : Ping, ping.serial < n ∧ m = .pingReply ping.id) : (p.route source).2 = p := by
  rw [route_eq]
  generalize (Wire.Frame.readAll source).1 = frames at early
  induction frames with
  | nil => rfl
  | cons frame frames ih =>
    obtain ⟨ping, before, reply⟩ := early frame.1 (by simp)
    have missed : p.handle frame.1 = p := by
      rw [reply]
      exact congrArg Prod.snd (renewed.deliver_of_early few before)
    rw [List.foldl_cons, missed]
    exact ih fun m found ↦ early m (List.mem_cons_of_mem _ found)

/-- What earlier callers still hold is no concern of the new session. -/
theorem of_session (renewed : p.Renewed n p') {q : Proxy} (settings : q.settings = p.settings)
    (session : q.session = p.session) (opened : q.opened = p.opened)
    (replies : ∀ ping : Ping, ping.later n ∈ q.replies ↔ ping.later n ∈ p.replies)
    (callers : ∀ ping : Ping, ping.later n ∈ q.callers ↔ ping.later n ∈ p.callers) :
    q.Renewed n p' where
  settings := settings.trans renewed.settings
  session := session ▸ renewed.session
  opened := opened.trans renewed.opened
  replies ping := (replies ping).trans (renewed.replies ping)
  callers ping := (callers ping).trans (renewed.callers ping)
  sound := renewed.sound

/-- That an earlier ping is given up does not reach the new session. -/
theorem abandon (renewed : p.Renewed n p') (few : 0 < n → p.opened ≤ 2 ^ 64)
    (early : ping.serial < n) :
    (p.dropPing ping).session = p.session ∧ (p.dropPing ping).Renewed n p' := by
  have forgotten := renewed.forget_of_early few early
  refine ⟨forgotten, renewed.of_session rfl forgotten rfl ?_ fun _ ↦ Iff.rfl⟩
  simp [Proxy.dropPing, Proxy.collect, modify, Ping.later_ne early]

/-- Nothing that an earlier caller does reaches the new session, and no reply is taken. -/
theorem stale (renewed : p.Renewed n p') (few : 0 < n → p.opened ≤ 2 ^ 64) (stale : e.Stale n) :
    (e.apply p).2.session = p.session ∧ (e.apply p).1 ≠ .flag true ∧
      (e.apply p).2.Renewed n p' := by
  cases stale with
  | @awaitPing ping early =>
    have collected : (p.collect ping).Renewed n p' :=
      renewed.of_session rfl rfl rfl (by simp [Proxy.collect, Ping.later_ne early]) fun _ ↦ Iff.rfl
    simp only [Edit.apply, awaitCallersPing, Proxy.awaitPing]
    split
    · split
      · exact ⟨rfl, by simp, collected⟩
      split
      · exact ⟨rfl, by simp, renewed⟩
      · exact ⟨rfl, by simp, renewed⟩
    · exact ⟨rfl, by simp, renewed⟩
  | @dropPing ping early =>
    obtain ⟨forgotten, dropped⟩ := renewed.abandon few early
    simp only [Edit.apply, dropCallersPing]
    split
    · exact ⟨forgotten, by simp, dropped.of_session rfl rfl rfl (fun _ ↦ Iff.rfl)
        (by simp [Proxy.dropPing, Proxy.collect, modify, Ping.later_ne early])⟩
    · exact ⟨rfl, by simp, renewed⟩
  | @deletePing ping early =>
    have forgotten := renewed.forget_of_early few early
    have answer : (p.deletePing ping.id).1 = false := by
      rw [Proxy.deletePing, renewed.pending?_of_early few early]
      rfl
    refine ⟨forgotten, ?_, renewed.of_session rfl forgotten rfl (fun _ ↦ Iff.rfl) fun _ ↦ Iff.rfl⟩
    show Edit.Answer.flag (p.deletePing ping.id).1 ≠ .flag true
    rw [answer]
    simp
  | @deliver ping early =>
    have missed := renewed.deliver_of_early few early
    simp only [Edit.apply, missed]
    exact ⟨trivial, by simp, renewed⟩
  | @handle ping early =>
    have missed := renewed.deliver_of_early few early
    simp only [Edit.apply, Proxy.handle, missed]
    exact ⟨trivial, by simp, renewed⟩
  | @route source early =>
    have missed : (((Edit.route source).apply p).2) = p := renewed.route_of_early few early
    rw [missed]
    exact ⟨rfl, Edit.Answer.noConfusion, renewed⟩

end Proxy.Renewed

end Supervisor
