import Mathlib.Data.Set.Card
import Supervisor.Proofs.Course.Run
import Supervisor.Proofs.Ping.History
import Supervisor.Proofs.Ping.Table
import Supervisor.Script

/-!
# Replies find their pings

Callers open pings, wait for them, delete and drop them, and the worker's replies are delivered, in
any order and for any number of pings at a time; the session is terminated and reset in between. An
`Exchange` is such a run over one proxy. Throughout, the table, the replies that lie ready and the
callers' pings are what the history tells (`Tracks`, `Exchange.tracks`), and `Exchange.correlates`
says what follows for those who take part: an id is issued once, a reply is taken for the ping that
waits under its id and for no other, and a wait is answered once, also when the session has been
terminated or reset between the reply and the wait.
-/

set_option autoImplicit false
set_option relaxedAutoImplicit false

namespace Supervisor

variable {h : Handle} {events : List Event} {p p' : Proxy} {ping : Ping}

/-! ### The history and the table -/

/-- The pings of the proxy are as the history tells. -/
structure Tracks (h : Handle) (events : List Event) (p : Proxy) : Prop where
  opened : p.opened = issued h events
  pings : ∀ ping, ping ∈ p.session.pings ↔ Registered h ping events
  replies : ∀ ping, ping ∈ p.replies ↔ Held h ping events
  callers : ∀ ping, ping ∈ p.callers ↔ Owned h ping events
  nodup : p.session.pings.Nodup

namespace Tracks

theorem entrusted (tracks : Tracks h events p) : p.Entrusted where
  old ping theirs := by
    rw [tracks.opened]
    exact issued_iff_serial_lt.mp ((tracks.callers ping).mp theirs).issued
  pings ping pending := (tracks.callers ping).mpr ((tracks.pings ping).mp pending).owned
  replies ping ready := (tracks.callers ping).mpr ((tracks.replies ping).mp ready).owned
  nodup := tracks.nodup

/-- Before anything has happened. -/
theorem nil (sound : p.Sound) (unused : p.opened = 0) : Tracks h [] p := by
  have none {pings : List Ping} (old : ∀ ping ∈ pings, ping.serial < p.opened) (ping : Ping) :
      ping ∉ pings := by
    intro found
    have := old ping found
    omega
  have empty : p.session.pings = [] := List.eq_nil_iff_forall_not_mem.mpr (none sound.pings)
  refine ⟨unused, fun ping ↦ ?_, fun ping ↦ ?_, fun ping ↦ ?_, ?_⟩
  · exact iff_of_false (none sound.pings ping) not_since_nil
  · exact iff_of_false (none sound.replies ping) not_since_nil
  · exact iff_of_false (none sound.callers ping) not_since_nil
  · rw [empty]
    exact List.nodup_nil

theorem edit (tracks : Tracks h events p) (e : Edit) (few : (e.apply p).2.opened ≤ 2 ^ 64) :
    Tracks h (.edited h e :: events) (e.apply p).2 := by
  have table := e.tabulates_of_few tracks.entrusted few
  have settles (id : PingId) : (Event.edited h e).settlement? h id = e.settlement? id := if_pos rfl
  constructor
  · rw [table.opened, issued_cons, tracks.opened]
    simp
  · intro ping
    rw [table.pings, registered_cons, tracks.pings, tracks.opened]
    simp [Issues, Ends, settles]
  · intro ping
    rw [table.replies, held_cons, tracks.pings, tracks.replies]
    simp [Answers, settles]
  · intro ping
    rw [table.callers, owned_cons, tracks.callers, tracks.opened]
    simp [Issues]
  · exact table.nodup

/-- The table is cleared; what lies ready and who has a ping stays. -/
theorem cleared (tracks : Tracks h events p) {e : Event} (opened : p'.opened = p.opened)
    (replies : p'.replies = p.replies) (callers : p'.callers = p.callers)
    (pings : p'.session.pings = []) (told : ∀ edit, e ≠ .edited h edit)
    (settles : ∀ id, e.settlement? h id = some .disconnected) : Tracks h (e :: events) p' := by
  constructor
  · rw [opened, tracks.opened, issued_cons, if_neg (told _), Nat.add_zero]
  · intro ping
    rw [pings, registered_cons]
    simp [Issues, Ends, told, settles]
  · intro ping
    rw [replies, tracks.replies, held_cons]
    simp [Answers, told, settles]
  · intro ping
    rw [callers, tracks.callers, owned_cons]
    simp [Issues, told]
  · rw [pings]
    exact List.nodup_nil

theorem reset (tracks : Tracks h events p) (createdAt : Calendar.Timestamp) :
    Tracks h (.fresh h :: events) (p.reset createdAt) := by
  have told (edit : Edit) : Event.fresh h ≠ .edited h edit := Event.noConfusion
  have settles (id : PingId) : (Event.fresh h).settlement? h id = some .disconnected := if_pos rfl
  exact tracks.cleared rfl rfl rfl rfl told settles

theorem ended (tracks : Tracks h events p) :
    Tracks h (.ended h :: events) p.markTerminated.finishTermination := by
  have told (edit : Edit) : Event.ended h ≠ .edited h edit := Event.noConfusion
  have settles (id : PingId) : (Event.ended h).settlement? h id = some .disconnected := if_pos rfl
  exact tracks.cleared rfl rfl rfl rfl told settles

theorem aside (tracks : Tracks h events p) (agree : p.PingsAgree p') {told : List Event}
    (foreign : ∀ e ∈ told, e.subject? ≠ some h) : Tracks h (told ++ events) p' where
  opened := by rw [agree.opened, tracks.opened, issued_append_of_foreign foreign]
  pings ping := by rw [agree.pings, tracks.pings, registered_append_of_foreign foreign]
  replies ping := by rw [agree.replies, tracks.replies, held_append_of_foreign foreign]
  callers ping := by rw [agree.callers, tracks.callers, owned_append_of_foreign foreign]
  nodup := by
    rw [agree.pings]
    exact tracks.nodup

/-! ### What is answered -/

theorem deliver_iff (tracks : Tracks h events p) (id : PingId) :
    ((Edit.deliver id).apply p).1 = .flag true ↔
      ∃ ping : Ping, ping.id = id ∧ Registered h ping events := by
  show Edit.Answer.flag (p.deliver id).1 = .flag true ↔ _
  rw [Edit.Answer.flag.injEq, Proxy.fst_deliver, Proxy.isSome_pending?]
  simp only [tracks.pings, and_comm]

theorem awaitPing_eq (tracks : Tracks h events p) (ping : Ping) :
    ((Edit.awaitPing ping).apply p).1 = .awaited (p.standing ping) := by
  show Edit.Answer.awaited (p.awaitCallersPing ping).1 = _
  unfold Proxy.awaitCallersPing
  split
  · rfl
  next stranger =>
    have entrusted := tracks.entrusted
    rw [Proxy.standing_eq, if_neg fun ready ↦ stranger (entrusted.replies ready),
      if_neg fun pending ↦ stranger (entrusted.pings pending)]

theorem awaitPing_iff (tracks : Tracks h events p) (ping : Ping) (result : Awaited) :
    ((Edit.awaitPing ping).apply p).1 = .awaited result ↔ p.standing ping = result := by
  rw [tracks.awaitPing_eq, Edit.Answer.awaited.injEq]

theorem answered_iff (tracks : Tracks h events p) (ping : Ping) :
    p.standing ping = .answered ↔ Held h ping events := by
  rw [Proxy.standing_eq, ← tracks.replies]
  split
  next ready => simp [ready]
  next missing => split <;> simp [missing]

theorem timedOut_iff (tracks : Tracks h events p) (ping : Ping) :
    p.standing ping = .timedOut ↔ Registered h ping events := by
  rw [Proxy.standing_eq, ← tracks.pings]
  split
  next ready =>
    have gone : ping ∉ p.session.pings := fun pending ↦
      ((tracks.replies ping).mp ready).not_registered ((tracks.pings ping).mp pending)
    simp [gone]
  next missing => split <;> simp [*]

theorem disconnected_iff (tracks : Tracks h events p) (ping : Ping) :
    p.standing ping = .disconnected ↔ ¬ Held h ping events ∧ ¬ Registered h ping events := by
  rw [← tracks.answered_iff, ← tracks.timedOut_iff]
  cases p.standing ping with
  | answered => simp
  | timedOut => simp
  | disconnected => simp

theorem length_pings (tracks : Tracks h events p) :
    p.session.pings.length = {ping | Registered h ping events}.ncard := by
  have same : {ping | Registered h ping events} = (p.session.pings.toFinset : Set Ping) := by
    ext ping
    simp [tracks.pings]
  rw [same, Set.ncard_coe_finset, List.toFinset_card_of_nodup tracks.nodup]

end Tracks

/-! ### Dealings with one ping -/

/-- What can be done with one ping once it is open. -/
def Ping.dealings (ping : Ping) : List Edit :=
  [.awaitPing ping, .dropPing ping, .deletePing ping.id, .deliver ping.id,
    .handle (.pingReply ping.id)]

/-- The answers to edits that are made one after the other. -/
def Edit.answers : List Edit → Proxy → List Edit.Answer
  | [], _ => []
  | e :: es, p => (e.apply p).1 :: answers es (e.apply p).2

/-- The ping is in the same places. -/
structure Proxy.SamePlaces (ping : Ping) (p p' : Proxy) : Prop where
  pings : ping ∈ p'.session.pings ↔ ping ∈ p.session.pings
  replies : ping ∈ p'.replies ↔ ping ∈ p.replies
  callers : ping ∈ p'.callers ↔ ping ∈ p.callers

/-- The proxy has opened the ping for a caller, and ids have not recurred. -/
structure Proxy.Knows (p : Proxy) (ping : Ping) : Prop where
  entrusted : p.Entrusted
  few : p.opened ≤ 2 ^ 64
  old : ping.serial < p.opened

namespace Proxy.Knows

theorem opened (knows : p.Knows ping) : p.Opened ping :=
  ⟨knows.entrusted.sound, knows.old, knows.few⟩

theorem pending_iff (knows : p.Knows ping) :
    (p.session.pending? ping.id).isSome = true ↔ ping ∈ p.session.pings := by
  rw [isSome_pending?]
  constructor
  · rintro ⟨other, pending, same⟩
    exact knows.opened.sole other pending same ▸ pending
  · exact fun pending ↦ ⟨ping, pending, rfl⟩

theorem apply (knows : p.Knows ping) {e : Edit} (room : e = .openPing → p.opened < 2 ^ 64) :
    (e.apply p).2.Knows ping := by
  have table := e.tabulates knows.entrusted knows.few room
  refine ⟨table.entrusted knows.entrusted, ?_, Nat.lt_of_lt_of_le knows.old (e.onward p).opened⟩
  rw [table.opened]
  split
  next opens => exact room opens
  · exact knows.few

end Proxy.Knows

theorem Ping.ne_openPing_of_mem_dealings {e : Edit} (deals : e ∈ ping.dealings) :
    e ≠ .openPing := by
  rintro rfl
  simp [dealings] at deals

namespace Proxy.SamePlaces

/-- To open a ping, or to deal with one, leaves the others where they are. -/
theorem of_other (knows : p.Knows ping) {e : Edit} (room : e = .openPing → p.opened < 2 ^ 64)
    (other : e = .openPing ∨ ∃ q : Ping, q.serial < p.opened ∧ q ≠ ping ∧ e ∈ q.dealings) :
    SamePlaces ping p (e.apply p).2 := by
  have table := e.tabulates knows.entrusted knows.few room
  rcases other with rfl | ⟨q, known, ne, deals⟩
  · have new : p.opened ≠ ping.serial := Nat.ne_of_gt knows.old
    constructor
    · simp [table.pings, new, Edit.settlement?]
    · simp [table.replies, Edit.settlement?]
    · simp [table.callers, new]
  · have opens := Ping.ne_openPing_of_mem_dealings deals
    have apart : q.id ≠ ping.id := knows.opened.id_ne known ne
    have silent : e.settlement? ping.id = none ∧ e ≠ .awaitPing ping ∧ e ≠ .dropPing ping := by
      simp only [Ping.dealings, List.mem_cons, List.not_mem_nil, or_false] at deals
      rcases deals with rfl | rfl | rfl | rfl | rfl <;> simp [Edit.settlement?, ne, apart]
    constructor
    · simp [table.pings, opens, silent]
    · simp [table.replies, silent]
    · simp [table.callers, opens, silent]

variable {e : Edit}

theorem apply (same : SamePlaces ping p p') (knows : p.Knows ping) (knows' : p'.Knows ping)
    (opens : e ≠ .openPing) : SamePlaces ping (e.apply p).2 (e.apply p').2 := by
  have table := e.tabulates knows.entrusted knows.few fun same ↦ absurd same opens
  have table' := e.tabulates knows'.entrusted knows'.few fun same ↦ absurd same opens
  constructor
  · simp [table.pings, table'.pings, opens, same.pings]
  · simp [table.replies, table'.replies, same.pings, same.replies]
  · simp [table.callers, table'.callers, opens, same.callers]

theorem answer_eq (same : SamePlaces ping p p') (knows : p.Knows ping) (knows' : p'.Knows ping)
    (deals : e ∈ ping.dealings) : (e.apply p').1 = (e.apply p).1 := by
  have pending : (p'.session.pending? ping.id).isSome = (p.session.pending? ping.id).isSome :=
    Bool.eq_iff_iff.mpr (knows'.pending_iff.trans (same.pings.trans knows.pending_iff.symm))
  have awaited : (p'.awaitCallersPing ping).1 = (p.awaitCallersPing ping).1 := by
    have stands := standing_congr same.replies same.pings
    simp only [awaitCallersPing, same.callers]
    split
    · exact stands
    · rfl
  simp only [Ping.dealings, List.mem_cons, List.not_mem_nil, or_false] at deals
  rcases deals with rfl | rfl | rfl | rfl | rfl
  · exact congrArg Edit.Answer.awaited awaited
  · rfl
  · exact congrArg Edit.Answer.flag pending
  · show Edit.Answer.flag (p'.deliver ping.id).1 = .flag (p.deliver ping.id).1
    rw [fst_deliver, fst_deliver, pending]
  · rfl

theorem answers_eq (same : SamePlaces ping p p') (knows : p.Knows ping) (knows' : p'.Knows ping)
    {es : List Edit} (deals : es ⊆ ping.dealings) : Edit.answers es p' = Edit.answers es p := by
  induction es generalizing p p' with
  | nil => rfl
  | cons e es ih =>
    obtain ⟨first, rest⟩ := List.cons_subset.mp deals
    have opens := Ping.ne_openPing_of_mem_dealings first
    have later := ih (same.apply knows knows' opens) (knows.apply fun same ↦ absurd same opens)
      (knows'.apply fun same ↦ absurd same opens) rest
    rw [Edit.answers, Edit.answers, same.answer_eq knows knows' first, later]

end Proxy.SamePlaces

/-! ### Runs -/

/-- A run on one proxy: edits, terminations and resets, and between these whatever else there is
that leaves the proxy's pings alone. -/
inductive Exchange {σ : Type} (control : ProcessControl σ) (h : Handle) (base : World σ) :
    World σ → Prop
  | start : Exchange control h base base
  | edit {w : World σ} (run : Exchange control h base w) (e : Edit) :
      Exchange control h base (w.edit h e).2
  | terminate {w : World σ} (run : Exchange control h base w) :
      Exchange control h base (w.terminate control h).2
  | reset {w : World σ} (run : Exchange control h base w) : Exchange control h base (w.reset h)
  | aside {w w' : World σ} (run : Exchange control h base w)
      (agree : (w.proxy h).PingsAgree (w'.proxy h)) (silent : w.Silent h w') :
      Exchange control h base w'

namespace Exchange

variable {σ : Type} {control : ProcessControl σ} {base u v w : World σ}

theorem trans (first : Exchange control h base u) (second : Exchange control h u v) :
    Exchange control h base v := by
  induction second with
  | start => exact first
  | edit _ e ih => exact ih.edit e
  | terminate _ ih => exact ih.terminate
  | reset _ ih => exact ih.reset
  | aside _ agree silent ih => exact ih.aside agree silent

/-- A termination that takes effect clears the table and is entered in the journal. -/
theorem terminate_of_going (control : ProcessControl σ) (h : Handle) (w : World σ)
    (going : ((w.session h).terminated || (w.session h).invalidated) = false) :
    ∃ told : List Event, (∀ e ∈ told, e.subject? ≠ some h) ∧
      (w.terminate control h).2.journal = told ++ .ended h :: w.journal ∧
      (w.terminate control h).2.proxy h = (w.proxy h).markTerminated.finishTermination := by
  obtain ⟨told, silent, journal, -, proxies⟩ := World.terminate_of_going control h w going
  refine ⟨told, fun e he ↦ by simp [silent e he], journal, ?_⟩
  rw [proxies h, World.proxy_modify_self]

/-- The journal grows, the pings are counted up, and the history goes on to tell of them. -/
theorem onward (run : Exchange control h base v) :
    ∃ news, v.journal = news ++ base.journal ∧ (base.proxy h).opened ≤ (v.proxy h).opened ∧
      ∀ events, Tracks h events (base.proxy h) → (v.proxy h).opened ≤ 2 ^ 64 →
        Tracks h (news ++ events) (v.proxy h) := by
  induction run with
  | start => exact ⟨[], rfl, Nat.le_refl _, fun _ tracks _ ↦ tracks⟩
  | @edit w run e ih =>
    obtain ⟨news, journal, opened, tracks⟩ := ih
    have later := (e.onward (w.proxy h)).opened
    rw [World.proxy_edit_self]
    exact ⟨.edited h e :: news, congrArg (_ :: ·) journal, Nat.le_trans opened later,
      fun events begun few ↦ (tracks events begun (Nat.le_trans later few)).edit e few⟩
  | @terminate w run ih =>
    by_cases ended : ((w.session h).terminated || (w.session h).invalidated) = true
    · rw [World.terminate_of_ended control h w ended]
      exact ih
    obtain ⟨news, journal, opened, tracks⟩ := ih
    obtain ⟨told, foreign, entered, proxy⟩ :=
      terminate_of_going control h w (eq_false_of_ne_true ended)
    have later := (w.proxy h).onward_finishTermination.opened
    rw [proxy]
    refine ⟨told ++ .ended h :: news, by simp [entered, journal], Nat.le_trans opened later,
      fun events begun few ↦ ?_⟩
    rw [List.append_assoc]
    exact (tracks events begun (Nat.le_trans later few)).ended.aside ⟨rfl, rfl, rfl, rfl⟩ foreign
  | @reset w run ih =>
    obtain ⟨news, journal, opened, tracks⟩ := ih
    have later := ((w.proxy h).onward_reset w.today).opened
    rw [World.proxy_reset_self]
    exact ⟨.fresh h :: news, congrArg (_ :: ·) journal, Nat.le_trans opened later,
      fun events begun few ↦ (tracks events begun (Nat.le_trans later few)).reset w.today⟩
  | aside run agree silent ih =>
    obtain ⟨news, journal, opened, tracks⟩ := ih
    obtain ⟨told, entered, foreign⟩ := silent
    rw [agree.opened]
    refine ⟨told ++ news, by rw [entered, journal, List.append_assoc], opened,
      fun events begun few ↦ ?_⟩
    rw [List.append_assoc]
    exact (tracks events begun few).aside agree foreign

theorem opened_le (run : Exchange control h base v) :
    (base.proxy h).opened ≤ (v.proxy h).opened := by
  obtain ⟨-, -, opened, -⟩ := run.onward
  exact opened

theorem tracks (run : Exchange control h base v) (begun : Tracks h [] (base.proxy h))
    (few : (v.proxy h).opened ≤ 2 ^ 64) : Tracks h (v.since base) (v.proxy h) := by
  obtain ⟨news, journal, -, tracks⟩ := run.onward
  rw [World.since_eq journal, ← List.append_nil news]
  exact tracks [] begun few

theorem since_edit (run : Exchange control h base v) (e : Edit) :
    (v.edit h e).2.since base = .edited h e :: v.since base := by
  obtain ⟨news, journal, -⟩ := run.onward
  rw [World.since_eq journal]
  exact World.since_eq (congrArg (_ :: ·) journal)

/-- What the second part of a run adds to the history. -/
theorem since_append (first : Exchange control h base u) (second : Exchange control h u v) :
    ∃ newer, v.since base = newer ++ u.since base := by
  obtain ⟨older, before, -⟩ := first.onward
  obtain ⟨newer, after, -⟩ := second.onward
  refine ⟨newer, ?_⟩
  rw [World.since_eq before]
  exact World.since_eq (by rw [after, before, List.append_assoc])

end Exchange

/-! ### What those who take part see -/

/-- How the proxy answers after a run, by what has been done to it since `base`. -/
structure Correlates {σ : Type} (control : ProcessControl σ) (h : Handle) (base v : World σ) :
    Prop where
  /-- Pings are issued in order. -/
  issues : (v.edit h .openPing).1 = .ping ⟨issued h (v.since base)⟩
  /-- No id is issued twice. -/
  new : ∀ ping, Issued h ping (v.since base) → ∀ next,
    (v.edit h .openPing).1 = .ping next → next.id ≠ ping.id
  /-- A reply is taken exactly if it is for a ping that was issued and has not been ended since. -/
  delivered : ∀ id, (v.edit h (.deliver id)).1 = .flag true ↔
    ∃ ping : Ping, ping.id = id ∧ Registered h ping (v.since base)
  /-- A wait is answered exactly if a reply was taken and no wait has used it up since. -/
  answered : ∀ ping, (v.edit h (.awaitPing ping)).1 = .awaited .answered ↔
    Held h ping (v.since base)
  timedOut : ∀ ping, (v.edit h (.awaitPing ping)).1 = .awaited .timedOut ↔
    Registered h ping (v.since base)
  disconnected : ∀ ping, (v.edit h (.awaitPing ping)).1 = .awaited .disconnected ↔
    ¬ Held h ping (v.since base) ∧ ¬ Registered h ping (v.since base)
  /-- No second wait for a ping is answered. -/
  once : ∀ ping u, Exchange control h base u →
    (u.edit h (.awaitPing ping)).1 = .awaited .answered →
      Exchange control h (u.edit h (.awaitPing ping)).2 v →
        (v.edit h (.awaitPing ping)).1 ≠ .awaited .answered
  /-- The table holds the pings that are registered. -/
  pending : (v.session h).pings.length = {ping | Registered h ping (v.since base)}.ncard
  /-- To open a ping or to deal with one makes no difference to those who deal with another. -/
  apart : ∀ ping, Issued h ping (v.since base) → ∀ e,
    (e = .openPing ∨ ∃ other, Issued h other (v.since base) ∧ other ≠ ping ∧ e ∈ other.dealings) →
      ∀ es ⊆ ping.dealings,
        Edit.answers es ((v.edit h e).2.proxy h) = Edit.answers es (v.proxy h)

namespace World

variable {σ : Type} {control : ProcessControl σ} {base v : World σ}

/-- Over any run on a proxy, replies and waits find the pings that they are for, each ping once. -/
theorem pings_correlate (arises : base.Arises control) (unused : (base.proxy h).opened = 0)
    (run : Exchange control h base v) (few : (v.proxy h).opened < 2 ^ 64) :
    Correlates control h base v := by
  have begun : Tracks h [] (base.proxy h) := .nil (arises.sound h) unused
  have tracks := run.tracks begun (Nat.le_of_lt few)
  have knows (ping : Ping) (issued : Issued h ping (v.since base)) : (v.proxy h).Knows ping := by
    refine ⟨tracks.entrusted, Nat.le_of_lt few, ?_⟩
    rw [tracks.opened]
    exact issued_iff_serial_lt.mp issued
  have issues : (v.edit h .openPing).1 = .ping ⟨issued h (v.since base)⟩ := by
    show Edit.Answer.ping ⟨(v.proxy h).opened⟩ = _
    rw [tracks.opened]
  constructor
  · exact issues
  · intro ping issued next opens same
    rw [issues, Edit.Answer.ping.injEq] at opens
    have older := (knows ping issued).old
    have this : next = ping := by
      refine Ping.eq_of_id ?_ (knows ping issued).opened.serial_lt same
      rw [← opens, ← tracks.opened]
      exact few
    rw [← this, ← opens, tracks.opened] at older
    exact Nat.lt_irrefl _ older
  · exact tracks.deliver_iff
  · exact fun ping ↦ (tracks.awaitPing_iff ping _).trans (tracks.answered_iff ping)
  · exact fun ping ↦ (tracks.awaitPing_iff ping _).trans (tracks.timedOut_iff ping)
  · exact fun ping ↦ (tracks.awaitPing_iff ping _).trans (tracks.disconnected_iff ping)
  · intro ping u first answered second again
    have fewer : (u.proxy h).opened ≤ 2 ^ 64 := by
      have later := second.opened_le
      rw [proxy_edit_self] at later
      exact Nat.le_trans (Edit.onward _ _).opened (Nat.le_trans later (Nat.le_of_lt few))
    have before := first.tracks begun fewer
    have held := (before.answered_iff ping).mp ((before.awaitPing_iff ping _).mp answered)
    obtain ⟨newer, after⟩ := (first.edit (.awaitPing ping)).since_append second
    rw [first.since_edit] at after
    refine held.not_held_of_awaited newer ?_
    rw [← after]
    exact (tracks.answered_iff ping).mp ((tracks.awaitPing_iff ping _).mp again)
  · exact tracks.length_pings
  · intro ping issued e other es deals
    have known := knows ping issued
    have places : Proxy.SamePlaces ping (v.proxy h) (e.apply (v.proxy h)).2 := by
      refine .of_other known (fun _ ↦ few) (other.imp_right ?_)
      rintro ⟨q, issued, ne, deals⟩
      exact ⟨q, (knows q issued).old, ne, deals⟩
    rw [proxy_edit_self]
    exact places.answers_eq known (known.apply fun _ ↦ few) deals

/-- Of two pings one is answered; the session is then terminated and reset, and only then do their
callers wait. -/
theorem held_over_reset :
    let h := Handle.standalone 0
    let base := start Settings.standard ({} : Script) ⟨0⟩ Calendar.Timestamp.epoch
    let both := ((base.edit h .openPing).2.edit h .openPing).2
    let v := ((both.edit h (.deliver 1)).2.terminate Script.control h).2.reset h
    base.Arises Script.control ∧ (base.proxy h).opened = 0 ∧
      Exchange Script.control h base v ∧ (v.proxy h).opened < 2 ^ 64 ∧
      (v.edit h (.awaitPing ⟨0⟩)).1 = .awaited .answered ∧ Held h ⟨0⟩ (v.since base) ∧
      (v.edit h (.awaitPing ⟨1⟩)).1 = .awaited .disconnected ∧
      ¬ Held h ⟨1⟩ (v.since base) ∧ ¬ Registered h ⟨1⟩ (v.since base) := by
  intro h base both v
  have arises : base.Arises Script.control := (reachable_start Script.control _ _ _ _).arises
  have run : Exchange Script.control h base v :=
    .reset (.terminate (.edit (.edit (.edit .start .openPing) .openPing) (.deliver 1)))
  have few : (v.proxy h).opened < 2 ^ 64 := by decide
  have correlates := pings_correlate arises rfl run few
  have answered : (v.edit h (.awaitPing ⟨0⟩)).1 = .awaited .answered := rfl
  have disconnected : (v.edit h (.awaitPing ⟨1⟩)).1 = .awaited .disconnected := rfl
  exact ⟨arises, rfl, run, few, answered, (correlates.answered ⟨0⟩).mp answered, disconnected,
    (correlates.disconnected ⟨1⟩).mp disconnected⟩

end World

end Supervisor
