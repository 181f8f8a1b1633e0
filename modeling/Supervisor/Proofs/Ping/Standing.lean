import Mathlib.Tactic.ByContra
import Supervisor.Proofs.Ping.Onward

/-!
# What settles a ping

Whoever waits for a ping would be told at any moment how it stands (`Proxy.standing`): answered,
still waiting, or gone. A ping that waits is settled by the first event that concerns it, and once
settled it stays as it is. `Edit.standing_apply` says so of one edit, and `Life.standing` of
everything that can happen to a proxy: what settles a ping is read off the journal
(`Event.settlement?`, `settled`).

The ping meant here is one that was not opened for a caller. What a reply does to it depends only on
no other pending ping having its id (`Proxy.Sole`), and that holds while the serials stay below
2^64.
-/

set_option autoImplicit false
set_option relaxedAutoImplicit false

namespace Supervisor

/-! ### Ids -/

/-- Among the first 2^64 pings of a proxy, an id belongs to one. -/
theorem Ping.eq_of_id {ping other : Ping} (few : ping.serial < 2 ^ 64) (few' : other.serial < 2 ^ 64)
    (same : ping.id = other.id) : ping = other := by
  have numbers := congrArg UInt64.toNat same
  simp only [id, UInt64.toNat_ofNat'] at numbers
  obtain ⟨serial⟩ := ping
  obtain ⟨serial'⟩ := other
  simp only at few few' numbers
  congr 1
  omega

/-! ### How a ping stands -/

/-- What waiting for the ping would give. -/
def Proxy.standing (ping : Ping) (p : Proxy) : Awaited :=
  (p.awaitPing ping).1

/-- A ping that waits is settled, and one that is settled stays so. -/
def Awaited.settle (now : Awaited) (settlement : Option Awaited) : Awaited :=
  match now with
  | .timedOut => settlement.getD .timedOut
  | now => now

@[simp] theorem Awaited.settle_none (now : Awaited) : now.settle none = now := by
  cases now <;> rfl

theorem Session.mem_forget {s : Session} {ping : Ping} {id : PingId} (other : ping.id ≠ id) :
    ping ∈ (s.forget id).pings ↔ ping ∈ s.pings := by
  simp [other]

namespace Proxy

variable {p p' : Proxy} {ping : Ping}

theorem standing_eq (p : Proxy) (ping : Ping) : p.standing ping =
    if ping ∈ p.replies then .answered else if ping ∈ p.session.pings then .timedOut
    else .disconnected := by
  unfold standing awaitPing
  split
  · rfl
  split
  · rfl
  · rfl

theorem standing_congr (replies : ping ∈ p'.replies ↔ ping ∈ p.replies)
    (pings : ping ∈ p'.session.pings ↔ ping ∈ p.session.pings) :
    p'.standing ping = p.standing ping := by
  simp only [standing_eq, replies, pings]

theorem standing_of_agree (agree : p.PingsAgree p') : p'.standing ping = p.standing ping :=
  standing_congr (by rw [agree.replies]) (by rw [agree.pings])

theorem standing_callers (p : Proxy) (ping : Ping) (callers : List Ping) :
    { p with callers := callers }.standing ping = p.standing ping :=
  standing_congr Iff.rfl Iff.rfl

/-- Losing its place in the table settles a ping that waits. -/
theorem standing_of_gone (replies : ping ∈ p'.replies ↔ ping ∈ p.replies)
    (gone : ping ∉ p'.session.pings) :
    p'.standing ping = (p.standing ping).settle (some .disconnected) := by
  simp only [standing_eq, replies, gone, if_false]
  split
  · rfl
  split
  · rfl
  · rfl

theorem standing_forget (p : Proxy) (ping : Ping) (id : PingId) :
    (p.modify (Session.forget id)).standing ping =
      (p.standing ping).settle (if id = ping.id then some .disconnected else none) := by
  by_cases same : id = ping.id
  · subst same
    rw [if_pos rfl]
    exact standing_of_gone Iff.rfl (by simp [modify])
  · rw [if_neg same, Awaited.settle_none]
    exact standing_congr Iff.rfl (Session.mem_forget (Ne.symm same))

theorem standing_collect {other : Ping} (ne : other ≠ ping) :
    (p.collect other).standing ping = p.standing ping := by
  refine standing_congr ?_ Iff.rfl
  simp [collect, Ne.symm ne]

theorem standing_reset (p : Proxy) (ping : Ping) (createdAt : Calendar.Timestamp) :
    (p.reset createdAt).standing ping = (p.standing ping).settle (some .disconnected) :=
  standing_of_gone Iff.rfl List.not_mem_nil

theorem standing_finishTermination (p : Proxy) (ping : Ping) :
    p.markTerminated.finishTermination.standing ping =
      (p.standing ping).settle (some .disconnected) :=
  standing_of_gone Iff.rfl List.not_mem_nil

end Proxy

/-- No other ping that waits has the ping's id. -/
def Proxy.Sole (p : Proxy) (ping : Ping) : Prop :=
  ∀ other ∈ p.session.pings, other.id = ping.id → other = ping

/-- Messages from the worker add nothing to the pings that wait. -/
theorem Proxy.pings_handle_subset (p : Proxy) (m : Message) :
    (p.handle m).session.pings ⊆ p.session.pings := by
  cases m with
  | pingReply id =>
    simp only [handle, deliver]
    split
    · exact List.Subset.refl _
    · exact Session.forget_pings_subset
  | _ => exact List.Subset.refl _

namespace Proxy.Sole

variable {p p' : Proxy} {ping : Ping}

theorem of_subset (sole : p.Sole ping) (pings : p'.session.pings ⊆ p.session.pings) :
    p'.Sole ping :=
  fun other pending ↦ sole other (pings pending)

theorem standing_deliver (sole : p.Sole ping) (id : PingId) :
    (p.deliver id).2.standing ping =
      (p.standing ping).settle (if id = ping.id then some .answered else none) := by
  unfold deliver
  cases found : p.session.pending? id with
  | none =>
    by_cases same : id = ping.id
    · subst same
      have gone : ping ∉ p.session.pings := by
        intro pending
        simpa using List.find?_eq_none.mp found ping pending
      rw [if_pos rfl]
      simp only [standing_eq, gone, if_false]
      split
      · rfl
      · rfl
    · rw [if_neg same, Awaited.settle_none]
  | some other =>
    have named := Session.id_of_pending? found
    have pending := Session.mem_pings_of_pending? found
    by_cases same : id = ping.id
    · have this : other = ping := sole other pending (named.trans same)
      subst this
      rw [if_pos same]
      simp only [standing_eq, List.mem_cons_self, if_true, pending]
      split
      · rfl
      · rfl
    · rw [if_neg same, Awaited.settle_none]
      have ne : ping ≠ other := fun this ↦ same (by rw [this, named])
      refine standing_congr ?_ (Session.mem_forget (Ne.symm same))
      simp [ne]

theorem standing_handle (sole : p.Sole ping) (m : Message) :
    (p.handle m).standing ping =
      (p.standing ping).settle (if m = .pingReply ping.id then some .answered else none) := by
  by_cases reply : ∃ id, m = .pingReply id
  · obtain ⟨id, rfl⟩ := reply
    simp only [Message.pingReply.injEq]
    exact sole.standing_deliver id
  · rw [if_neg fun same ↦ reply ⟨_, same⟩, Awaited.settle_none]
    refine standing_of_agree ?_
    cases m with
    | pingReply id => exact absurd ⟨id, rfl⟩ reply
    | _ => exact ⟨rfl, rfl, rfl, rfl⟩

theorem standing_route (sole : p.Sole ping) (source : Wire.Source) :
    (p.route source).2.standing ping =
      (p.standing ping).settle
        (if .pingReply ping.id ∈ (Wire.Frame.readAll source).1.map Prod.fst then some .answered
          else none) := by
  rw [route_eq]
  generalize (Wire.Frame.readAll source).1 = frames
  induction frames generalizing p with
  | nil => simp
  | cons frame frames ih =>
    have after : (p.handle frame.1).Sole ping := sole.of_subset (p.pings_handle_subset frame.1)
    rw [List.foldl_cons, ih after, sole.standing_handle]
    by_cases here : frame.1 = .pingReply ping.id
    · simp only [here, List.map_cons, List.mem_cons_self, if_true]
      cases p.standing ping with
      | answered => rfl
      | timedOut => rfl
      | disconnected => rfl
    · simp only [here, Ne.symm here, List.map_cons, List.mem_cons, if_false, false_or,
        Awaited.settle_none]

end Proxy.Sole

/-- The ping was opened by the proxy, whose serials have not run out. -/
structure Proxy.Opened (p : Proxy) (ping : Ping) : Prop where
  sound : p.Sound
  old : ping.serial < p.opened
  few : p.opened ≤ 2 ^ 64

namespace Proxy.Opened

variable {p : Proxy} {ping : Ping}

theorem serial_lt (opened : p.Opened ping) : ping.serial < 2 ^ 64 :=
  Nat.lt_of_lt_of_le opened.old opened.few

/-- Another ping of the proxy has another id. -/
theorem id_ne (opened : p.Opened ping) {other : Ping} (known : other.serial < p.opened)
    (ne : other ≠ ping) : other.id ≠ ping.id :=
  fun same ↦ ne (Ping.eq_of_id (Nat.lt_of_lt_of_le known opened.few) opened.serial_lt same)

theorem sole (opened : p.Opened ping) : p.Sole ping := by
  intro other pending same
  by_contra ne
  exact opened.id_ne (opened.sound.pings other pending) ne same

/-! ### One change -/

theorem standing_dropPing (opened : p.Opened ping) {other : Ping}
    (known : other.serial < p.opened) (ne : other ≠ ping) :
    (p.dropPing other).standing ping = p.standing ping := by
  rw [dropPing, standing_collect ne, standing_forget, if_neg (opened.id_ne known ne),
    Awaited.settle_none]

theorem standing_openPing (opened : p.Opened ping) (few : p.opened < 2 ^ 64) :
    p.openPing.2.standing ping = p.standing ping := by
  have ne : ping ≠ ⟨p.opened⟩ := by
    intro same
    have old := opened.old
    rw [same] at old
    exact Nat.lt_irrefl _ old
  have other : ping.id ≠ Ping.id ⟨p.opened⟩ :=
    fun same ↦ ne (Ping.eq_of_id opened.serial_lt few same)
  refine standing_congr Iff.rfl ?_
  simp [openPing, Session.register, ne, other]

end Proxy.Opened

/-! ### Edits -/

/-- How an edit settles a ping that waits under the id. -/
def Edit.settlement? (id : PingId) : Edit → Option Awaited
  | .deliver other => if other = id then some .answered else none
  | .handle m => if m = .pingReply id then some .answered else none
  | .route source =>
    if .pingReply id ∈ (Wire.Frame.readAll source).1.map Prod.fst then some .answered else none
  | .deletePing other => if other = id then some .disconnected else none
  | _ => none

theorem Edit.standing_apply {e : Edit} {p : Proxy} {ping : Ping} (opened : p.Opened ping)
    (own : ping ∉ p.callers) (few : (e.apply p).2.opened ≤ 2 ^ 64) :
    (e.apply p).2.standing ping = (p.standing ping).settle (e.settlement? ping.id) := by
  have still {e : Edit} (silent : e.settlement? ping.id = none)
      (same : (e.apply p).2.standing ping = p.standing ping) :
      (e.apply p).2.standing ping = (p.standing ping).settle (e.settlement? ping.id) := by
    rw [silent, Awaited.settle_none, same]
  cases e with
  | openPing =>
    refine still rfl ?_
    exact (Proxy.standing_callers _ ping _).trans (opened.standing_openPing few)
  | awaitPing other =>
    refine still rfl ?_
    simp only [apply, Proxy.awaitCallersPing]
    split
    next theirs =>
      have ne : other ≠ ping := fun same ↦ own (same ▸ theirs)
      unfold Proxy.awaitPing
      split
      · exact Proxy.standing_collect ne
      split
      · rfl
      · rfl
    · rfl
  | dropPing other =>
    refine still rfl ?_
    simp only [apply, Proxy.dropCallersPing]
    split
    next theirs =>
      have ne : other ≠ ping := fun same ↦ own (same ▸ theirs)
      exact (Proxy.standing_callers _ ping _).trans
        (opened.standing_dropPing (opened.sound.callers other theirs) ne)
    · rfl
  | deletePing id => exact p.standing_forget ping id
  | deliver id => exact opened.sole.standing_deliver id
  | handle m => exact opened.sole.standing_handle m
  | route source => exact opened.sole.standing_route source
  | _ =>
    refine still rfl (Proxy.standing_of_agree (pingsAgree_of_quiet ?_ p))
    trivial

/-- To settle a ping is to end the wait for it. -/
theorem Edit.settlement?_ne (id : PingId) (e : Edit) : e.settlement? id ≠ some .timedOut := by
  cases e with
  | deliver | handle | route | deletePing =>
    simp only [settlement?]
    split
    · simp
    · simp
  | _ => simp [settlement?]

/-! ### Lives -/

/-- How an event settles a ping of the proxy that waits under the id. -/
def Event.settlement? (h : Handle) (id : PingId) : Event → Option Awaited
  | .fresh k | .ended k => if k = h then some .disconnected else none
  | .edited k e => if k = h then e.settlement? id else none
  | _ => none

/-- How a ping that waits stands after the events, of which the newest is the first in the list. -/
def settled (h : Handle) (id : PingId) (events : List Event) : Awaited :=
  (events.reverse.findSome? (Event.settlement? h id)).getD .timedOut

theorem Event.settlement?_ne (h : Handle) (id : PingId) (e : Event) :
    e.settlement? h id ≠ some .timedOut := by
  cases e with
  | fresh | ended =>
    simp only [settlement?]
    split
    · simp
    · simp
  | edited k e =>
    simp only [settlement?]
    split
    · exact e.settlement?_ne id
    · simp
  | _ => simp [settlement?]

theorem settled_cons (h : Handle) (id : PingId) (e : Event) (events : List Event) :
    settled h id (e :: events) = (settled h id events).settle (e.settlement? h id) := by
  unfold settled
  rw [List.reverse_cons, List.findSome?_append]
  cases first : events.reverse.findSome? (Event.settlement? h id) with
  | none => cases found : e.settlement? h id <;> simp [Awaited.settle, found]
  | some found =>
    obtain ⟨earlier, -, settles⟩ := List.exists_of_findSome?_eq_some first
    cases found with
    | answered => rfl
    | timedOut => exact absurd settles (earlier.settlement?_ne h id)
    | disconnected => rfl

/-- Events about others settle nothing. -/
theorem settled_append {h : Handle} {told : List Event} (foreign : ∀ e ∈ told, e.subject? ≠ some h)
    (id : PingId) (events : List Event) : settled h id (told ++ events) = settled h id events := by
  induction told with
  | nil => rfl
  | cons e told ih =>
    have silent : e.settlement? h id = none := by
      have away := foreign e List.mem_cons_self
      cases e with
      | fresh | ended | edited => exact if_neg fun same ↦ away (congrArg some same)
      | _ => rfl
    rw [List.cons_append, settled_cons, silent, Awaited.settle_none]
    exact ih fun e he ↦ foreign e (List.mem_cons_of_mem _ he)

/-- A ping that waits and is nobody else's is settled by the first event that concerns it. -/
theorem Life.standing {σ : Type} {h : Handle} {base w : World σ} (life : Life h base w)
    (known : base.Has h) {ping : Ping} (sound : (base.proxy h).Sound)
    (old : ping.serial < (base.proxy h).opened) (own : ping ∉ (base.proxy h).callers)
    (waits : (base.proxy h).standing ping = .timedOut) (few : (w.proxy h).opened ≤ 2 ^ 64) :
    ∃ news, w.journal = news ++ base.journal ∧
      (w.proxy h).standing ping = settled h ping.id news := by
  have opened {v v' : World σ} (life : Life h base v) (onward : (v.proxy h).Onward (v'.proxy h))
      (few : (v'.proxy h).opened ≤ 2 ^ 64) : (v.proxy h).Opened ping :=
    ⟨life.sound sound, Nat.lt_of_lt_of_le old (life.onward known).opened,
      Nat.le_trans onward.opened few⟩
  have ours {v : World σ} (life : Life h base v) : ping ∉ (v.proxy h).callers := by
    intro theirs
    rcases (life.onward known).callers ping theirs with theirs | new
    · exact own theirs
    · exact Nat.not_le_of_lt old new.1
  induction life with
  | start => exact ⟨[], rfl, waits⟩
  | aside life alike _ silent ih =>
    obtain ⟨news, journal, stands⟩ := ih (alike.opened ▸ few)
    obtain ⟨told, later, foreign⟩ := silent
    refine ⟨told ++ news, by rw [later, journal, List.append_assoc], ?_⟩
    rw [settled_append foreign, Proxy.standing_of_agree alike.toPingsAgree, stands]
  | @edit w life e ih =>
    have onward : (w.proxy h).Onward ((w.edit h e).2.proxy h) := by
      rw [World.proxy_edit_self]
      exact e.onward _
    have here := opened life onward few
    obtain ⟨news, journal, stands⟩ := ih here.few
    rw [World.proxy_edit_self] at few ⊢
    refine ⟨.edited h e :: news, congrArg (_ :: ·) journal, ?_⟩
    rw [settled_cons, ← stands, Event.settlement?, if_pos rfl]
    exact Edit.standing_apply here (ours life) few
  | @reset w life ih =>
    have onward : (w.proxy h).Onward ((w.reset h).proxy h) := by
      rw [World.proxy_reset_self]
      exact (w.proxy h).onward_reset w.today
    obtain ⟨news, journal, stands⟩ := ih (opened life onward few).few
    refine ⟨.fresh h :: news, congrArg (_ :: ·) journal, ?_⟩
    rw [settled_cons, ← stands, Event.settlement?, if_pos rfl, World.proxy_reset_self]
    exact Proxy.standing_reset _ _ _
  | make _ missing => exact absurd known missing
  | @terminate w life _ ih =>
    have onward : (w.proxy h).Onward (((w.modify h fun p ↦ p.markTerminated.finishTermination).note
        (.ended h)).proxy h) := by
      rw [World.proxy_note, World.proxy_modify_self]
      exact (w.proxy h).onward_finishTermination
    obtain ⟨news, journal, stands⟩ := ih (opened life onward few).few
    refine ⟨.ended h :: news, congrArg (_ :: ·) journal, ?_⟩
    rw [settled_cons, ← stands, Event.settlement?, if_pos rfl, World.proxy_note,
      World.proxy_modify_self]
    exact Proxy.standing_finishTermination _ _
  | @openPing w life ih =>
    have onward : (w.proxy h).Onward ((w.put h (w.proxy h).openPing.2).proxy h) := by
      rw [World.proxy_put_self]
      exact (w.proxy h).onward_openPing
    have here := opened life onward few
    obtain ⟨news, journal, stands⟩ := ih here.few
    rw [World.proxy_put_self] at few ⊢
    exact ⟨news, journal, (here.standing_openPing few).trans stands⟩
  | @dropPing w life other theirs ih =>
    have onward : (w.proxy h).Onward ((w.modify h (Proxy.dropPing other)).proxy h) := by
      rw [World.proxy_modify_self]
      exact (w.proxy h).onward_dropPing other
    have here := opened life onward few
    obtain ⟨news, journal, stands⟩ := ih here.few
    obtain ⟨later, before⟩ := theirs known
    have ne : other ≠ ping := fun same ↦ Nat.not_le_of_lt old (same ▸ later)
    rw [World.proxy_modify_self]
    exact ⟨news, journal, (here.standing_dropPing before ne).trans stands⟩

end Supervisor
