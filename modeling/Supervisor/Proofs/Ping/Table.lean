import Supervisor.Proofs.Ping.Standing

/-!
# The pings of callers

A ping that was opened for a caller is in up to two of three places: its caller has it, it waits in
the table, its reply lies ready. What an edit does to each of the three is said here by membership
(`Edit.Tabulates`, `Edit.tabulates`), for a proxy that knows only pings of callers
(`Proxy.Entrusted`) and as long as ids do not recur.
-/

set_option autoImplicit false
set_option relaxedAutoImplicit false

namespace Supervisor

namespace Proxy

variable {p : Proxy} {ping : Ping} {id : PingId}

/-! ### Replies from the worker -/

theorem mem_pings_deliver : ping ∈ (p.deliver id).2.session.pings ↔
    ping ∈ p.session.pings ∧ ping.id ≠ id := by
  unfold deliver
  cases found : p.session.pending? id with
  | none =>
    have absent := List.find?_eq_none.mp found
    exact ⟨fun pending ↦ ⟨pending, by simpa using absent ping pending⟩, And.left⟩
  | some other => simp [modify]

theorem mem_replies_deliver (sole : ping ∈ p.session.pings → p.Sole ping) :
    ping ∈ (p.deliver id).2.replies ↔
      ping.id = id ∧ ping ∈ p.session.pings ∨ ping ∈ p.replies := by
  unfold deliver
  cases found : p.session.pending? id with
  | none =>
    have absent := List.find?_eq_none.mp found
    refine ⟨.inr, fun ready ↦ ready.resolve_left ?_⟩
    rintro ⟨named, pending⟩
    simpa [named] using absent ping pending
  | some other =>
    have named := Session.id_of_pending? found
    have waits := Session.mem_pings_of_pending? found
    have this : ping = other ↔ ping.id = id ∧ ping ∈ p.session.pings := by
      constructor
      · rintro rfl
        exact ⟨named, waits⟩
      · rintro ⟨same, pending⟩
        exact (sole pending other waits (named.trans same.symm)).symm
    rw [List.mem_cons, this]

theorem fst_deliver : (p.deliver id).1 = (p.session.pending? id).isSome := by
  unfold deliver
  cases p.session.pending? id with
  | none => rfl
  | some ping => rfl

theorem isSome_pending? : (p.session.pending? id).isSome = true ↔
    ∃ ping ∈ p.session.pings, ping.id = id := by
  simp [Session.pending?]

theorem mem_pings_handle (m : Message) : ping ∈ (p.handle m).session.pings ↔
    ping ∈ p.session.pings ∧ m ≠ .pingReply ping.id := by
  cases m with
  | pingReply id =>
    simp only [handle, mem_pings_deliver, ne_eq, Message.pingReply.injEq, eq_comm]
  | _ => simp [handle, modify]

theorem mem_replies_handle (sole : ping ∈ p.session.pings → p.Sole ping) (m : Message) :
    ping ∈ (p.handle m).replies ↔
      m = .pingReply ping.id ∧ ping ∈ p.session.pings ∨ ping ∈ p.replies := by
  cases m with
  | pingReply id =>
    simp only [handle, mem_replies_deliver sole, Message.pingReply.injEq, eq_comm]
  | _ => simp [handle, modify]

theorem mem_pings_route (source : Wire.Source) : ping ∈ (p.route source).2.session.pings ↔
    ping ∈ p.session.pings ∧ .pingReply ping.id ∉ (Wire.Frame.readAll source).1.map Prod.fst := by
  rw [route_eq]
  generalize (Wire.Frame.readAll source).1 = frames
  induction frames generalizing p with
  | nil => simp
  | cons frame frames ih =>
    rw [List.foldl_cons, ih, mem_pings_handle, List.map_cons, List.mem_cons, not_or, and_assoc,
      ne_comm]

theorem mem_replies_route (sole : ping ∈ p.session.pings → p.Sole ping) (source : Wire.Source) :
    ping ∈ (p.route source).2.replies ↔
      .pingReply ping.id ∈ (Wire.Frame.readAll source).1.map Prod.fst ∧ ping ∈ p.session.pings ∨
        ping ∈ p.replies := by
  rw [route_eq]
  generalize (Wire.Frame.readAll source).1 = frames
  induction frames generalizing p with
  | nil => simp
  | cons frame frames ih =>
    have after (pending : ping ∈ (p.handle frame.1).session.pings) : (p.handle frame.1).Sole ping :=
      (sole (mem_pings_handle frame.1 |>.mp pending).1).of_subset (p.pings_handle_subset frame.1)
    rw [List.foldl_cons, ih after, mem_pings_handle, mem_replies_handle sole, List.map_cons,
      List.mem_cons]
    by_cases here : frame.1 = .pingReply ping.id
    · simp [here]
    · simp [here, Ne.symm here]

/-- Nothing but the table and the replies is touched, and no ping is added. -/
structure Answering (p p' : Proxy) : Prop where
  opened : p'.opened = p.opened
  callers : p'.callers = p.callers
  pings : p'.session.pings.Sublist p.session.pings

theorem Answering.refl (p : Proxy) : p.Answering p :=
  ⟨rfl, rfl, List.Sublist.refl _⟩

theorem answering_deliver (p : Proxy) (id : PingId) : p.Answering (p.deliver id).2 := by
  unfold deliver
  split
  · exact .refl p
  · exact ⟨rfl, rfl, List.filter_sublist⟩

theorem answering_handle (p : Proxy) (m : Message) : p.Answering (p.handle m) := by
  cases m with
  | pingReply id => exact p.answering_deliver id
  | _ => exact ⟨rfl, rfl, List.Sublist.refl _⟩

theorem answering_route (p : Proxy) (source : Wire.Source) : p.Answering (p.route source).2 := by
  rw [route_eq]
  generalize (Wire.Frame.readAll source).1 = frames
  induction frames generalizing p with
  | nil => exact .refl p
  | cons frame frames ih =>
    have first := p.answering_handle frame.1
    have rest := ih (p.handle frame.1)
    exact ⟨rest.opened.trans first.opened, rest.callers.trans first.callers,
      rest.pings.trans first.pings⟩

/-- The proxy knows only of pings that it opened for callers who still have them. -/
structure Entrusted (p : Proxy) : Prop where
  old : ∀ ping ∈ p.callers, ping.serial < p.opened
  pings : p.session.pings ⊆ p.callers
  replies : p.replies ⊆ p.callers
  nodup : p.session.pings.Nodup

namespace Entrusted

theorem sound (entrusted : p.Entrusted) : p.Sound where
  pings _ pending := entrusted.old _ (entrusted.pings pending)
  replies _ ready := entrusted.old _ (entrusted.replies ready)
  callers := entrusted.old

theorem opened (entrusted : p.Entrusted) (few : p.opened ≤ 2 ^ 64) (known : ping ∈ p.callers) :
    p.Opened ping :=
  ⟨entrusted.sound, entrusted.old ping known, few⟩

theorem sole (entrusted : p.Entrusted) (few : p.opened ≤ 2 ^ 64)
    (pending : ping ∈ p.session.pings) : p.Sole ping :=
  (entrusted.opened few (entrusted.pings pending)).sole

end Entrusted

end Proxy

/-! ### One edit -/

namespace Edit

/-- What the edit does to the pings of callers. -/
structure Tabulates (e : Edit) (p p' : Proxy) : Prop where
  opened : p'.opened = p.opened + if e = .openPing then 1 else 0
  pings : ∀ ping, ping ∈ p'.session.pings ↔ e = .openPing ∧ p.opened = ping.serial ∨
    (e.settlement? ping.id = none ∧ e ≠ .dropPing ping) ∧ ping ∈ p.session.pings
  replies : ∀ ping, ping ∈ p'.replies ↔
    e.settlement? ping.id = some .answered ∧ ping ∈ p.session.pings ∨
      (e ≠ .awaitPing ping ∧ e ≠ .dropPing ping) ∧ ping ∈ p.replies
  callers : ∀ ping, ping ∈ p'.callers ↔ e = .openPing ∧ p.opened = ping.serial ∨
    e ≠ .dropPing ping ∧ ping ∈ p.callers
  nodup : p'.session.pings.Nodup

variable {p : Proxy}

/-- A proxy that knows only pings of callers stays such a proxy. -/
theorem Tabulates.entrusted {e : Edit} {p' : Proxy} (table : e.Tabulates p p')
    (entrusted : p.Entrusted) : p'.Entrusted where
  old ping theirs := by
    rw [table.opened]
    rcases (table.callers ping).mp theirs with ⟨opens, new⟩ | ⟨-, theirs⟩
    · rw [if_pos opens, new]
      exact Nat.lt_succ_self _
    · exact Nat.lt_add_right _ (entrusted.old ping theirs)
  pings ping pending := by
    refine (table.callers ping).mpr ?_
    rcases (table.pings ping).mp pending with new | ⟨⟨-, kept⟩, pending⟩
    · exact .inl new
    · exact .inr ⟨kept, entrusted.pings pending⟩
  replies ping ready := by
    refine (table.callers ping).mpr (.inr ?_)
    rcases (table.replies ping).mp ready with ⟨answers, pending⟩ | ⟨⟨-, kept⟩, ready⟩
    · refine ⟨?_, entrusted.pings pending⟩
      rintro rfl
      cases answers
    · exact ⟨kept, entrusted.replies ready⟩
  nodup := table.nodup

theorem tabulates_of_agree {e : Edit} {p' : Proxy} (entrusted : p.Entrusted)
    (agree : p.PingsAgree p') (quiet : e.Quiet) : e.Tabulates p p' := by
  have opens : e ≠ .openPing := by
    rintro rfl
    exact quiet
  have awaits (ping : Ping) : e ≠ .awaitPing ping := by
    rintro rfl
    exact quiet
  have drops (ping : Ping) : e ≠ .dropPing ping := by
    rintro rfl
    exact quiet
  have settles (id : PingId) : e.settlement? id = none := by
    cases e with
    | deliver | handle | route | deletePing => exact quiet.elim
    | _ => rfl
  constructor
  · simp [opens, agree.opened]
  · simp [opens, drops, settles, agree.pings]
  · simp [awaits, drops, settles, agree.replies]
  · simp [opens, drops, agree.callers]
  · rw [agree.pings]
    exact entrusted.nodup

theorem tabulates_openPing (entrusted : p.Entrusted) (few : p.opened < 2 ^ 64) :
    Edit.openPing.Tabulates p p.openPingForCaller.2 := by
  have new (ping : Ping) : ping = ⟨p.opened⟩ ↔ p.opened = ping.serial :=
    ⟨fun same ↦ same ▸ rfl, fun same ↦ same ▸ rfl⟩
  have distinct (ping : Ping) (pending : ping ∈ p.session.pings) :
      ping.id ≠ Ping.id ⟨p.opened⟩ := by
    have older := entrusted.sound.pings ping pending
    intro same
    have this := Ping.eq_of_id (Nat.lt_trans older few) few same
    exact Nat.ne_of_lt older (congrArg Ping.serial this)
  have kept : p.openPingForCaller.2.session.pings = ⟨p.opened⟩ :: p.session.pings :=
    congrArg _ (List.filter_eq_self.mpr fun ping pending ↦ decide_eq_true (distinct ping pending))
  constructor
  · rfl
  · simp [kept, new, settlement?]
  · simp [settlement?, Proxy.openPingForCaller, Proxy.openPing]
  · simp [Proxy.openPingForCaller, Proxy.openPing, new]
  · rw [kept]
    exact List.nodup_cons.mpr ⟨fun pending ↦ distinct _ pending rfl, entrusted.nodup⟩

theorem tabulates_awaitPing (entrusted : p.Entrusted) (ping : Ping) :
    (Edit.awaitPing ping).Tabulates p (p.awaitCallersPing ping).2 := by
  have collected : (p.awaitCallersPing ping).2 = p.collect ping := by
    have untouched (absent : ping ∉ p.replies) : p.collect ping = p := by
      have all : p.replies.filter (fun other ↦ other ≠ ping) = p.replies :=
        List.filter_eq_self.mpr fun other ready ↦
          decide_eq_true fun same ↦ absent (same ▸ ready)
      rw [Proxy.collect, all]
    unfold Proxy.awaitCallersPing Proxy.awaitPing
    split
    · split
      · rfl
      next absent =>
        rw [untouched absent]
        split
        · rfl
        · rfl
    next stranger => exact (untouched fun ready ↦ stranger (entrusted.replies ready)).symm
  rw [collected]
  constructor
  · rfl
  · simp [settlement?, Proxy.collect]
  · intro other
    simp [settlement?, Proxy.collect, and_comm, @eq_comm _ other ping]
  · simp [Proxy.collect]
  · exact entrusted.nodup

theorem tabulates_dropPing (entrusted : p.Entrusted) (few : p.opened ≤ 2 ^ 64) (ping : Ping) :
    (Edit.dropPing ping).Tabulates p (p.dropCallersPing ping) := by
  by_cases known : ping ∈ p.callers
  · have alone (other : Ping) (theirs : other ∈ p.callers) : other.id = ping.id ↔ ping = other := by
      refine ⟨fun same ↦ ?_, fun same ↦ same ▸ rfl⟩
      by_contra ne
      exact (entrusted.opened few known).id_ne (entrusted.old other theirs) (Ne.symm ne) same
    have dropped : p.dropCallersPing ping =
        { p.dropPing ping with callers := p.callers.filter fun other ↦ other ≠ ping } :=
      if_pos known
    rw [dropped]
    constructor
    · rfl
    · intro other
      have this : other ∈ p.session.pings ∧ ¬ other.id = ping.id ↔
          other ∈ p.session.pings ∧ ¬ ping = other :=
        and_congr_right fun pending ↦ not_congr (alone other (entrusted.pings pending))
      simpa [settlement?, Proxy.dropPing, Proxy.collect, Proxy.modify, and_comm] using this
    · intro other
      simp [settlement?, Proxy.dropPing, Proxy.collect, Proxy.modify, and_comm,
        @eq_comm _ other ping]
    · intro other
      simp [and_comm, @eq_comm _ other ping]
    · exact entrusted.nodup.filter _
  · have untouched : p.dropCallersPing ping = p := if_neg known
    have other {q : Ping} (theirs : q ∈ p.callers) : ping ≠ q := fun same ↦ known (same ▸ theirs)
    rw [untouched]
    constructor
    · rfl
    · intro q
      have this (pending : q ∈ p.session.pings) := other (entrusted.pings pending)
      simpa [settlement?] using this
    · intro q
      have this (ready : q ∈ p.replies) := other (entrusted.replies ready)
      simpa [settlement?] using this
    · intro q
      simpa using other
    · exact entrusted.nodup

theorem tabulates_deletePing (entrusted : p.Entrusted) (id : PingId) :
    (Edit.deletePing id).Tabulates p (p.deletePing id).2 := by
  constructor
  · rfl
  · intro ping
    simp [settlement?, Proxy.deletePing, Proxy.modify, and_comm, @eq_comm _ ping.id id]
  · simp [settlement?, Proxy.deletePing, Proxy.modify]
  · simp [Proxy.deletePing, Proxy.modify]
  · exact entrusted.nodup.filter _

/-- An edit that only brings replies. -/
theorem tabulates_of_answering {e : Edit} {p' : Proxy} (entrusted : p.Entrusted)
    (answering : p.Answering p') (opens : e ≠ .openPing) (awaits : ∀ ping, e ≠ .awaitPing ping)
    (drops : ∀ ping, e ≠ .dropPing ping)
    (pings : ∀ ping, ping ∈ p'.session.pings ↔
      ping ∈ p.session.pings ∧ e.settlement? ping.id = none)
    (replies : ∀ ping, ping ∈ p'.replies ↔
      e.settlement? ping.id = some .answered ∧ ping ∈ p.session.pings ∨ ping ∈ p.replies) :
    e.Tabulates p p' := by
  constructor
  · simp [answering.opened, opens]
  · simp [pings, opens, drops, and_comm]
  · simp [replies, awaits, drops]
  · simp [answering.callers, opens, drops]
  · exact entrusted.nodup.sublist answering.pings

theorem tabulates (e : Edit) (entrusted : p.Entrusted) (few : p.opened ≤ 2 ^ 64)
    (room : e = .openPing → p.opened < 2 ^ 64) : e.Tabulates p (e.apply p).2 := by
  have sole {ping : Ping} (pending : ping ∈ p.session.pings) := entrusted.sole few pending
  cases e with
  | openPing => exact tabulates_openPing entrusted (room rfl)
  | awaitPing ping => exact tabulates_awaitPing entrusted ping
  | dropPing ping => exact tabulates_dropPing entrusted few ping
  | deletePing id => exact tabulates_deletePing entrusted id
  | deliver id =>
    refine tabulates_of_answering entrusted (p.answering_deliver id) (by simp) (by simp) (by simp)
      (fun ping ↦ ?_) fun ping ↦ ?_
    · simp [apply, settlement?, Proxy.mem_pings_deliver, @eq_comm _ id]
    · simp [apply, settlement?, Proxy.mem_replies_deliver sole, @eq_comm _ id]
  | handle m =>
    refine tabulates_of_answering entrusted (p.answering_handle m) (by simp) (by simp) (by simp)
      (fun ping ↦ ?_) fun ping ↦ ?_
    · simp [apply, settlement?, Proxy.mem_pings_handle]
    · simp [apply, settlement?, Proxy.mem_replies_handle sole]
  | route source =>
    refine tabulates_of_answering entrusted (p.answering_route source) (by simp) (by simp)
      (by simp) (fun ping ↦ ?_) fun ping ↦ ?_
    · simp only [apply, settlement?, Proxy.mem_pings_route]
      simp
    · simp only [apply, settlement?, Proxy.mem_replies_route sole]
      simp
  | _ =>
    refine tabulates_of_agree entrusted (pingsAgree_of_quiet ?_ p) ?_
    · trivial
    · trivial

/-- It is enough that ids have not recurred afterwards. -/
theorem tabulates_of_few (e : Edit) (entrusted : p.Entrusted)
    (few : (e.apply p).2.opened ≤ 2 ^ 64) : e.Tabulates p (e.apply p).2 := by
  refine e.tabulates entrusted (Nat.le_trans (e.onward p).opened few) ?_
  rintro rfl
  exact few

end Edit

end Supervisor
