import Supervisor.Proofs.Course.Life
import Supervisor.Proofs.Wire.Stream

/-!
# Where pings come from

Serials are counted up, and a ping is registered under the next one only when it is opened.
`Proxy.Onward` says what this means from one state of a proxy to a later one: a ping found there was
there before or was opened in between. Every edit leads onward (`Edit.onward`), and so does every
life of a proxy that exists (`Life.onward`).

Two things follow. The pings known to a proxy were all opened by it (`Proxy.Sound`, `Life.sound`),
so the next serial is a new one. And a ping that has left the table does not come back.
-/

set_option autoImplicit false
set_option relaxedAutoImplicit false

namespace Supervisor

/-! ### From one state of a proxy to a later one -/

/-- Opened on the way from `p` to `p'`. -/
def Proxy.OpenedBetween (p p' : Proxy) (ping : Ping) : Prop :=
  p.opened ≤ ping.serial ∧ ping.serial < p'.opened

structure Proxy.Onward (p p' : Proxy) : Prop where
  opened : p.opened ≤ p'.opened
  pings : ∀ ping ∈ p'.session.pings, ping ∈ p.session.pings ∨ p.OpenedBetween p' ping
  replies : ∀ ping ∈ p'.replies,
    ping ∈ p.replies ∨ ping ∈ p.session.pings ∨ p.OpenedBetween p' ping
  callers : ∀ ping ∈ p'.callers, ping ∈ p.callers ∨ p.OpenedBetween p' ping

namespace Proxy.Onward

variable {p p' p'' : Proxy}

/-- No ping is added. -/
theorem of_subset (opened : p'.opened = p.opened) (pings : p'.session.pings ⊆ p.session.pings)
    (replies : ∀ ping ∈ p'.replies, ping ∈ p.replies ∨ ping ∈ p.session.pings)
    (callers : p'.callers ⊆ p.callers) : p.Onward p' where
  opened := Nat.le_of_eq opened.symm
  pings _ h := .inl (pings h)
  replies ping h := (replies ping h).imp_right .inl
  callers _ h := .inl (callers h)

theorem of_agree (agree : p.PingsAgree p') : p.Onward p' := by
  refine of_subset agree.opened ?_ ?_ ?_
  · rw [agree.pings]
    exact List.Subset.refl _
  · rw [agree.replies]
    exact fun ping h ↦ .inl h
  · rw [agree.callers]
    exact List.Subset.refl _

theorem refl (p : Proxy) : p.Onward p :=
  of_agree ⟨rfl, rfl, rfl, rfl⟩

theorem trans (first : p.Onward p') (second : p'.Onward p'') : p.Onward p'' := by
  have early {ping : Ping} (h : p.OpenedBetween p' ping) : p.OpenedBetween p'' ping :=
    ⟨h.1, Nat.lt_of_lt_of_le h.2 second.opened⟩
  have late {ping : Ping} (h : p'.OpenedBetween p'' ping) : p.OpenedBetween p'' ping :=
    ⟨Nat.le_trans first.opened h.1, h.2⟩
  have table (ping : Ping) (h : ping ∈ p'.session.pings) :
      ping ∈ p.session.pings ∨ p.OpenedBetween p'' ping :=
    (first.pings ping h).imp_right early
  constructor
  · exact Nat.le_trans first.opened second.opened
  · intro ping h
    rcases second.pings ping h with h | h
    · exact table ping h
    · exact .inr (late h)
  · intro ping h
    rcases second.replies ping h with h | h | h
    · exact (first.replies ping h).imp_right (Or.imp_right early)
    · exact .inr (table ping h)
    · exact .inr (.inr (late h))
  · intro ping h
    rcases second.callers ping h with h | h
    · exact (first.callers ping h).imp_right early
    · exact .inr (late h)

end Proxy.Onward

/-! ### What proxies do with pings -/

namespace Session

variable {s : Session} {ping : Ping} {id : PingId}

@[simp] theorem pings_forget : (s.forget id).pings = s.pings.filter fun ping ↦ ping.id ≠ id :=
  rfl

theorem mem_pings_of_pending? (found : s.pending? id = some ping) : ping ∈ s.pings :=
  List.mem_of_find?_eq_some found

theorem id_of_pending? (found : s.pending? id = some ping) : ping.id = id := by
  simpa using List.find?_some found

theorem forget_pings_subset : (s.forget id).pings ⊆ s.pings :=
  List.filter_sublist.subset

end Session

namespace Proxy

variable (p : Proxy) (ping : Ping) (id : PingId)

theorem onward_forget : p.Onward (p.modify (Session.forget id)) :=
  .of_subset rfl Session.forget_pings_subset (fun _ h ↦ .inl h) (List.Subset.refl _)

theorem onward_collect : p.Onward (p.collect ping) :=
  .of_subset rfl (List.Subset.refl _) (fun _ h ↦ .inl (List.mem_filter.mp h).1)
    (List.Subset.refl _)

theorem onward_openPing : p.Onward p.openPing.2 := by
  constructor
  · exact Nat.le_succ _
  · intro ping h
    rcases List.mem_cons.mp h with rfl | h
    · exact .inr ⟨Nat.le_refl _, Nat.lt_succ_self _⟩
    · exact .inl (Session.forget_pings_subset h)
  · exact fun ping h ↦ .inl h
  · exact fun ping h ↦ .inl h

theorem onward_deliver : p.Onward (p.deliver id).2 := by
  unfold deliver
  cases found : p.session.pending? id with
  | none => exact .refl p
  | some ping =>
    refine .of_subset rfl Session.forget_pings_subset ?_ (List.Subset.refl _)
    intro other h
    rcases List.mem_cons.mp h with rfl | h
    · exact .inr (Session.mem_pings_of_pending? found)
    · exact .inl h

theorem onward_awaitPing : p.Onward (p.awaitPing ping).2 := by
  unfold awaitPing
  split
  · exact p.onward_collect ping
  split
  · exact .refl p
  · exact .refl p

theorem onward_dropPing : p.Onward (p.dropPing ping) :=
  (p.onward_forget ping.id).trans (onward_collect _ ping)

theorem onward_openPingForCaller : p.Onward p.openPingForCaller.2 := by
  have opened := p.onward_openPing
  refine ⟨opened.opened, opened.pings, opened.replies, ?_⟩
  intro ping h
  rcases List.mem_cons.mp h with rfl | h
  · exact .inr ⟨Nat.le_refl _, Nat.lt_succ_self _⟩
  · exact .inl h

theorem onward_dropCallersPing : p.Onward (p.dropCallersPing ping) := by
  unfold dropCallersPing
  split
  · have dropped := p.onward_dropPing ping
    exact ⟨dropped.opened, dropped.pings, dropped.replies,
      fun other h ↦ .inl (List.mem_filter.mp h).1⟩
  · exact .refl p

theorem onward_handle (m : Message) : p.Onward (p.handle m) := by
  cases m with
  | pingReply id => exact p.onward_deliver id
  | _ => exact .of_agree ⟨rfl, rfl, rfl, rfl⟩

/-- Taking in what a source holds is taking in its messages one by one. -/
theorem route_eq (source : Wire.Source) :
    (p.route source).2 = (Wire.Frame.readAll source).1.foldl (fun p frame ↦ p.handle frame.1) p := by
  have paired (frames : List (Message × StreamId)) (count : Nat) (q : Proxy) :
      (frames.foldl (fun (pair : Nat × Proxy) frame ↦ (pair.1 + 1, pair.2.handle frame.1))
        (count, q)).2 = frames.foldl (fun p frame ↦ p.handle frame.1) q := by
    induction frames generalizing count q with
    | nil => rfl
    | cons frame frames ih => exact ih _ _
  unfold route
  rw [Wire.Frame.fold_eq]
  exact paired _ 0 p

theorem fst_route (source : Wire.Source) : (p.route source).1 =
    if (Wire.Frame.readAll source).2.1 = .endOfStream
      then .ok (Wire.Frame.readAll source).1.length
      else .error (Wire.Frame.readAll source).2.1 := by
  have counted (frames : List (Message × StreamId)) (count : Nat) (q : Proxy) :
      (frames.foldl (fun (pair : Nat × Proxy) frame ↦ (pair.1 + 1, pair.2.handle frame.1))
        (count, q)).1 = count + frames.length := by
    induction frames generalizing count q with
    | nil => rfl
    | cons frame frames ih =>
      rw [List.foldl_cons, ih, List.length_cons, Nat.add_assoc, Nat.add_comm 1]
  unfold route
  rw [Wire.Frame.fold_eq]
  simp only [counted, Nat.zero_add]

theorem onward_route (source : Wire.Source) : p.Onward (p.route source).2 := by
  rw [route_eq]
  generalize (Wire.Frame.readAll source).1 = frames
  induction frames generalizing p with
  | nil => exact .refl p
  | cons frame frames ih => exact (p.onward_handle frame.1).trans (ih _)

end Proxy

/-! ### Edits -/

/-- The edit has nothing to do with pings. -/
def Edit.Quiet : Edit → Prop
  | .openPing | .awaitPing _ | .dropPing _ | .deletePing _ | .deliver _ | .handle _ | .route _ =>
    False
  | _ => True

theorem Session.pings_setValid (s : Session) (value : Bool) :
    (s.setValid value).pings = s.pings := by
  unfold setValid
  split
  · split
    · rfl
    · rfl
  · rfl

theorem Session.pings_setStaged (s : Session) (kind : PayloadKind) (content : Option Bytes) :
    (s.setStaged kind content).pings = s.pings := by
  cases kind <;> rfl

theorem Edit.pingsAgree_of_quiet {e : Edit} (quiet : e.Quiet) (p : Proxy) :
    p.PingsAgree (e.apply p).2 := by
  cases e with
  | openPing | awaitPing | dropPing | deletePing | deliver | handle | route => exact quiet.elim
  | setLabel label text => cases label <;> exact ⟨rfl, rfl, rfl, rfl⟩
  | setValid value => exact ⟨rfl, rfl, rfl, p.session.pings_setValid value⟩
  | stage kind content => exact ⟨rfl, rfl, rfl, p.session.pings_setStaged kind _⟩
  | unstage kind => exact ⟨rfl, rfl, rfl, p.session.pings_setStaged kind none⟩
  | _ => exact ⟨rfl, rfl, rfl, rfl⟩

theorem Edit.onward (e : Edit) (p : Proxy) : p.Onward (e.apply p).2 := by
  cases e with
  | openPing => exact p.onward_openPingForCaller
  | awaitPing ping =>
    simp only [apply, Proxy.awaitCallersPing]
    split
    · exact p.onward_awaitPing ping
    · exact .refl p
  | dropPing ping => exact p.onward_dropCallersPing ping
  | deletePing id => exact p.onward_forget id
  | deliver id => exact p.onward_deliver id
  | handle m => exact p.onward_handle m
  | route source => exact p.onward_route source
  | _ =>
    refine .of_agree (pingsAgree_of_quiet ?_ p)
    trivial

/-! ### Lives -/

/-- Every ping that the proxy knows of was opened by it. -/
structure Proxy.Sound (p : Proxy) : Prop where
  pings : ∀ ping ∈ p.session.pings, ping.serial < p.opened
  replies : ∀ ping ∈ p.replies, ping.serial < p.opened
  callers : ∀ ping ∈ p.callers, ping.serial < p.opened

theorem Proxy.sound_new (settings : Settings) (createdAt : Calendar.Timestamp) :
    (Proxy.new settings createdAt).Sound := by
  constructor
  · exact fun _ h ↦ absurd h List.not_mem_nil
  · exact fun _ h ↦ absurd h List.not_mem_nil
  · exact fun _ h ↦ absurd h List.not_mem_nil

theorem Proxy.Onward.sound {p p' : Proxy} (onward : p.Onward p') (sound : p.Sound) : p'.Sound := by
  have early {ping : Ping} (h : ping.serial < p.opened) : ping.serial < p'.opened :=
    Nat.lt_of_lt_of_le h onward.opened
  constructor
  · intro ping h
    rcases onward.pings ping h with h | h
    · exact early (sound.pings ping h)
    · exact h.2
  · intro ping h
    rcases onward.replies ping h with h | h | h
    · exact early (sound.replies ping h)
    · exact early (sound.pings ping h)
    · exact h.2
  · intro ping h
    rcases onward.callers ping h with h | h
    · exact early (sound.callers ping h)
    · exact h.2

theorem Proxy.onward_reset (p : Proxy) (createdAt : Calendar.Timestamp) :
    p.Onward (p.reset createdAt) :=
  .of_subset rfl (List.nil_subset _) (fun _ h ↦ .inl h) (List.Subset.refl _)

theorem Proxy.onward_finishTermination (p : Proxy) :
    p.Onward p.markTerminated.finishTermination :=
  .of_subset rfl (List.nil_subset _) (fun _ h ↦ .inl h) (List.Subset.refl _)

/-- The proxy comes from what it was, or else from a new one made in its place. -/
def World.Yields {σ : Type} (base : World σ) (h : Handle) (p : Proxy) : Prop :=
  (base.proxy h).Onward p ∨
    ¬ base.Has h ∧ ∃ settings createdAt, (Proxy.new settings createdAt).Onward p

theorem World.Yields.onward {σ : Type} {base : World σ} {h : Handle} {p p' : Proxy}
    (yields : base.Yields h p) (step : p.Onward p') : base.Yields h p' := by
  rcases yields with onward | ⟨missing, settings, createdAt, onward⟩
  · exact .inl (onward.trans step)
  · exact .inr ⟨missing, settings, createdAt, onward.trans step⟩

namespace Life

variable {σ : Type} {h : Handle} {base w : World σ}

theorem yields (life : Life h base w) : base.Yields h (w.proxy h) := by
  induction life with
  | start => exact .inl (.refl _)
  | aside _ alike _ _ ih => exact ih.onward (.of_agree alike.toPingsAgree)
  | edit _ e ih =>
    rw [World.proxy_edit_self]
    exact ih.onward (e.onward _)
  | reset _ ih =>
    rw [World.proxy_reset_self]
    exact ih.onward (Proxy.onward_reset _ _)
  | make _ missing settings createdAt _ =>
    rw [World.proxy_note, World.proxy_put_self]
    exact .inr ⟨missing, settings, createdAt, .refl _⟩
  | terminate _ _ ih =>
    rw [World.proxy_note, World.proxy_modify_self]
    exact ih.onward (Proxy.onward_finishTermination _)
  | openPing _ ih =>
    rw [World.proxy_put_self]
    exact ih.onward (Proxy.onward_openPing _)
  | dropPing _ ping _ ih =>
    rw [World.proxy_modify_self]
    exact ih.onward (Proxy.onward_dropPing _ ping)

theorem onward (life : Life h base w) (known : base.Has h) :
    (base.proxy h).Onward (w.proxy h) := by
  rcases life.yields with onward | ⟨missing, -⟩
  · exact onward
  · exact absurd known missing

theorem sound (life : Life h base w) (sound : (base.proxy h).Sound) : (w.proxy h).Sound := by
  rcases life.yields with onward | ⟨-, settings, createdAt, onward⟩
  · exact onward.sound sound
  · exact onward.sound (Proxy.sound_new settings createdAt)

/-- A ping of before that is still registered has seen no reset. -/
theorem resets_eq_of_mem_pings (life : Life h base w) (known : base.Has h) {ping : Ping}
    (old : ping.serial < (base.proxy h).opened) (pending : ping ∈ (w.proxy h).session.pings) :
    w.resets h = base.resets h := by
  have before {w : World σ} (life : Life h base w) {p : Proxy} (step : (w.proxy h).Onward p)
      (pending : ping ∈ p.session.pings) : ping ∈ (w.proxy h).session.pings := by
    rcases step.pings ping pending with pending | new
    · exact pending
    · have later := (life.onward known).opened
      exact absurd new.1 (Nat.not_le_of_lt (Nat.lt_of_lt_of_le old later))
  induction life with
  | start => rfl
  | aside _ alike _ silent ih =>
    rw [silent.resets]
    exact ih (alike.pings ▸ pending)
  | @edit w life e ih =>
    rw [World.resets_edit]
    rw [World.proxy_edit_self] at pending
    exact ih (before life (e.onward _) pending)
  | reset =>
    rw [World.proxy_reset_self] at pending
    exact absurd pending List.not_mem_nil
  | make _ missing => exact absurd known missing
  | terminate =>
    rw [World.proxy_note, World.proxy_modify_self] at pending
    exact absurd pending List.not_mem_nil
  | openPing life ih =>
    rw [World.proxy_put_self] at pending
    exact ih (before life (Proxy.onward_openPing _) pending)
  | dropPing life ping' _ ih =>
    rw [World.proxy_modify_self] at pending
    exact ih (before life (Proxy.onward_dropPing _ ping') pending)

end Life

end Supervisor
