import Mathlib.Tactic.ByContra
import Supervisor.Proofs.Flight.Basic

/-!
# Frames that outlast their session

A proxy may be reset while it has a frame under way, and may hold another session when the link
gives the frame back. What the operation then still does is meant for the session that is gone.
`land_undisturbed_iff` says that it leaves the next session alone, and the pings of its callers,
with one exception: a query number or a start message that could not be sent is put back into a
session that has none of its own.
-/

set_option autoImplicit false
set_option relaxedAutoImplicit false

namespace Supervisor

/-- Nothing of the session is changed, and each caller is told the same about its ping. -/
structure Proxy.Undisturbed (p p' : Proxy) : Prop where
  session : p'.session = p.session
  settings : p'.settings = p.settings
  opened : p'.opened = p.opened
  callers : p'.callers = p.callers
  replies : ∀ ping ∈ p.callers, ping ∈ p'.replies ↔ ping ∈ p.replies

theorem Proxy.Undisturbed.refl (p : Proxy) : p.Undisturbed p :=
  ⟨rfl, rfl, rfl, rfl, fun _ _ ↦ Iff.rfl⟩

namespace World

variable {σ : Type} {host : Host σ} {w v : World σ} {h : Handle} {op : Operation}
  {sent : Except IoFault Unit}

@[simp] theorem proxy_acknowledge (d : Dispatch) (sent : Except IoFault Unit) (v : World σ)
    (k : Handle) : (acknowledge d sent v).proxy k = v.proxy k := by
  cases sent with
  | error fault => rfl
  | ok => rfl

/-! ### Payloads -/

/-- A payload that could not be sent is put back, for want of another one in its place. -/
def PutsBack (op : Operation) (sent : Except IoFault Unit) (v : World σ) : Prop :=
  ∃ h kind fault, op = .sendStaged h kind ∧ kind ≠ .requirements ∧ sent = .error fault ∧
    (v.session h).staged kind = none

/-- Nothing is put back where something is staged. -/
theorem proxy_restore_of_staged {kind : PayloadKind} {content other : Bytes}
    (staged : (v.session h).staged kind = some other) (k : Handle) :
    (v.restore h kind content).proxy k = v.proxy k := by
  by_cases same : k = h
  · subst same
    unfold session at staged
    rw [restore, proxy_modify_self, Proxy.modify, staged, Option.isNone_some,
      if_neg Bool.false_ne_true]
  · exact proxy_modify_of_ne v _ same

theorem staged_restore_of_none {kind : PayloadKind} {content : Bytes}
    (empty : (v.session h).staged kind = none) :
    ((v.restore h kind content).session h).staged kind = some content := by
  unfold session at empty
  unfold restore session
  rw [proxy_modify_self, Proxy.modify]
  dsimp only
  rw [empty, Option.isNone_none, if_pos rfl, Session.staged_setStaged, if_pos rfl]

/-! ### Pings -/

section

variable {link : Link} (known : w.Has h) (life : Life h (w.pinging h link) v)
include known life

/-- A ping that was opened before a reset has left the table. -/
theorem nextPing_gone (reset : v.resets h ≠ (w.pinging h link).resets h) :
    w.nextPing h ∉ (v.proxy h).session.pings :=
  fun pending ↦ reset (life.resets_eq_of_mem_pings (has_pinging known link)
    (serial_nextPing_lt w h link) pending)

/-- The ping of `verifyAlive` does not become that of a caller. -/
theorem nextPing_not_callers (sound : (w.proxy h).Sound) :
    w.nextPing h ∉ (v.proxy h).callers := by
  intro theirs
  rcases (life.onward (has_pinging known link)).callers _ theirs with theirs | new
  · exact (standing_pinging sound link).2 theirs
  · exact Nat.not_le_of_lt (serial_nextPing_lt w h link) new.1

end

/-- To give up a ping that is gone already disturbs nobody. -/
theorem undisturbed_dropPing {p : Proxy} {ping : Ping} (opened : p.Opened ping)
    (gone : ping ∉ p.session.pings) (foreign : ping ∉ p.callers) :
    p.Undisturbed (p.dropPing ping) where
  session := by
    have same : p.session.pings.filter (fun other ↦ other.id ≠ ping.id) = p.session.pings := by
      refine List.filter_eq_self.mpr fun other pending ↦ ?_
      have ne : other ≠ ping := fun same ↦ gone (same ▸ pending)
      simpa using opened.id_ne (opened.sound.pings other pending) ne
    unfold Proxy.dropPing Proxy.collect Proxy.modify Session.forget
    simp only [same]
  settings := rfl
  opened := rfl
  callers := rfl
  replies := by
    intro other theirs
    have ne : other ≠ ping := fun same ↦ foreign (same ▸ theirs)
    simp [Proxy.dropPing, Proxy.collect, Proxy.modify, ne]

/-! ### Every operation -/

/-- Where proxies are left as they are, nobody is disturbed. -/
theorem undisturbed_of_eq {u : World σ} (same : ∀ k, u.proxy k = v.proxy k) (k : Handle) :
    (v.proxy k).Undisturbed (u.proxy k) :=
  (same k).symm ▸ .refl _

theorem land_sendStaged_undisturbed_iff {kind : PayloadKind} {content : Bytes}
    (staged : (w.session h).staged kind = some content) (d : Dispatch) :
    (∀ k, (v.proxy k).Undisturbed
        ((w.land (.sendStaged h kind) sent (acknowledge d sent v)).proxy k)) ↔
      ¬ PutsBack (.sendStaged h kind) sent v := by
  unfold land
  simp only [staged]
  cases sent with
  | ok =>
    refine iff_of_true (undisturbed_of_eq fun k ↦ rfl) ?_
    rintro ⟨_, _, _, -, -, failed, -⟩
    cases failed
  | error fault =>
    dsimp only
    by_cases kept : kind = .requirements
    · rw [if_pos kept]
      refine iff_of_true (undisturbed_of_eq fun k ↦ rfl) ?_
      rintro ⟨_, _, _, same, other, -, -⟩
      cases same
      exact other kept
    rw [if_neg kept]
    cases found : (v.session h).staged kind with
    | none =>
      refine iff_of_false (fun all ↦ ?_) (not_not_intro ⟨h, kind, fault, rfl, kept, rfl, found⟩)
      have same : (v.restore h kind content).session h = v.session h := (all h).session
      have filled : ((v.restore h kind content).session h).staged kind = some content :=
        staged_restore_of_none found
      rw [same, found] at filled
      cases filled
    | some other =>
      refine iff_of_true (undisturbed_of_eq (proxy_restore_of_staged found)) ?_
      rintro ⟨_, _, _, same, -, -, empty⟩
      cases same
      rw [found] at empty
      cases empty

theorem land_verifyAlive_undisturbed {link : Link} {timeout : Duration}
    (arises : w.Arises host.toProcessControl) (known : w.Has h)
    (life : Life h (w.pinging h link) v) (reset : v.resets h ≠ (w.pinging h link).resets h)
    (few : (v.proxy h).opened ≤ 2 ^ 64) (d : Dispatch) (k : Handle) :
    (v.proxy k).Undisturbed
      ((w.land (.verifyAlive h timeout) sent (acknowledge d sent v)).proxy k) := by
  have sound := arises.sound h
  have begun : ((w.pinging h link).proxy h).Sound := by
    rw [proxy_pinging]
    exact (w.proxy h).onward_openPing.sound sound
  have opened : (v.proxy h).Opened (w.nextPing h) :=
    ⟨life.sound begun, Nat.lt_of_lt_of_le (serial_nextPing_lt w h link)
      (life.onward (has_pinging known link)).opened, few⟩
  show (v.proxy k).Undisturbed (((acknowledge d sent v).modify h _).proxy k)
  by_cases same : k = h
  · subst same
    rw [proxy_modify_self, proxy_acknowledge]
    exact undisturbed_dropPing opened (nextPing_gone known life reset)
      (nextPing_not_callers known life sound)
  · rw [proxy_modify_of_ne _ _ same, proxy_acknowledge]
    exact .refl _

/-- An operation whose proxy is reset while its frame is under way leaves all proxies as it finds
them then, unless it puts a payload back. -/
theorem land_undisturbed_iff {f : Flight σ} (orderly : host.Orderly)
    (arises : w.Arises host.toProcessControl) (found : w.flight? op = some f)
    (known : w.Has f.dispatch.owner)
    (transmitted : host.transmit f.dispatch.link f.dispatch.frame f.handed = (sent, v))
    (reset : v.resets f.dispatch.owner ≠ f.handed.resets f.dispatch.owner)
    (few : (v.proxy f.dispatch.owner).opened ≤ 2 ^ 64) :
    (∀ k, (v.proxy k).Undisturbed ((w.perform host op).2.proxy k)) ↔ ¬ PutsBack op sent v := by
  rw [perform_of_flight found transmitted]
  have apart (other : ∀ h kind, op ≠ .sendStaged h kind) : ¬ PutsBack op sent v :=
    fun ⟨h, kind, _, same, _⟩ ↦ other h kind same
  cases op with
  | send | requestShutdown | setInflate =>
    exact iff_of_true (undisturbed_of_eq (proxy_acknowledge _ _ _)) (apart (by simp))
  | sendStaged h kind =>
    obtain ⟨content, staged, -⟩ := Option.bind_eq_some_iff.mp found
    exact land_sendStaged_undisturbed_iff staged _
  | verifyAlive h timeout =>
    obtain ⟨link, -, found⟩ := Option.bind_eq_some_iff.mp found
    split at found
    · cases found
      exact iff_of_true (land_verifyAlive_undisturbed arises known
        (life_of_transmit orderly h transmitted) reset few _) (apart (by simp))
    · cases found
  | _ => cases found

/-- A start message waits to be sent over a link that takes it with the action. -/
def oneStaged (action : LinkAction) : World Script :=
  ((Script.connect (.standalone 0) "worker" [action]
    (start Settings.standard ({} : Script) ⟨0⟩ Calendar.Timestamp.epoch)).edit (.standalone 0)
      (.stage .startMsg [1])).2

theorem reachable_oneStaged (action : LinkAction) :
    (oneStaged action).Reachable Script.control := by
  have step (v : World Script) (e : Edit) :=
    Reaches.of_perform (Script.host_orderly Script.control) v (.edit (.standalone 0) e)
  refine (reachable_start Script.control Settings.standard {} ⟨0⟩ Calendar.Timestamp.epoch).trans ?_
  exact (((Reaches.refl _).change _).trans (step _ (.setLink _))).trans (step _ (.stage _ _))

/-- A start message is not put back into a session that has staged another one. -/
theorem undisturbed_of_restaged :
    let host := Script.host Script.control
    let w := oneStaged
      { hooks := [.reset, .restage [2] [3]], failure := some (.system .brokenPipe) }
    let op := Operation.sendStaged (.standalone 0) .startMsg
    ∃ f, w.flight? op = some f ∧ host.Orderly ∧ w.Arises host.toProcessControl ∧
      w.Has f.dispatch.owner ∧
      let v := (host.transmit f.dispatch.link f.dispatch.frame f.handed).2
      v.resets f.dispatch.owner ≠ f.handed.resets f.dispatch.owner ∧
      (v.proxy f.dispatch.owner).opened ≤ 2 ^ 64 ∧
      ∀ k, (v.proxy k).Undisturbed ((w.perform host op).2.proxy k) := by
  intro host w op
  have orderly : host.Orderly := Script.host_orderly Script.control
  have arises : w.Arises host.toProcessControl := (reachable_oneStaged _).arises
  have found : w.flight? op = some _ := rfl
  refine ⟨_, found, orderly, arises, trivial, ?_⟩
  intro v
  have reset : v.resets (.standalone 0) ≠ w.resets (.standalone 0) := by decide
  have few : (v.proxy (.standalone 0)).opened ≤ 2 ^ 64 := by decide
  refine ⟨reset, few,
    (land_undisturbed_iff orderly arises found trivial (Prod.eta _).symm reset few).mpr ?_⟩
  rintro ⟨h, kind, fault, same, -, -, empty⟩
  obtain ⟨rfl, rfl⟩ := Operation.sendStaged.inj same
  exact absurd empty (by decide)

/-- A start message that the link gave back after a reset turns up in the session that follows. -/
theorem putBack_after_reset :
    let host := Script.host Script.control
    let h := Handle.standalone 0
    let w := oneStaged { hooks := [.reset], failure := some (.system .brokenPipe) }
    let op := Operation.sendStaged h .startMsg
    w.Reachable Script.control ∧ host.Orderly ∧
      ∃ f, w.flight? op = some f ∧ f.dispatch.owner = h ∧
        let v := (host.transmit f.dispatch.link f.dispatch.frame f.handed).2
        v.resets h = f.handed.resets h + 1 ∧ (v.session h).startMsg = none ∧
        ((w.perform host op).2.session h).startMsg = some [1] ∧
        (w.perform host op).2.resets h = v.resets h :=
  ⟨reachable_oneStaged _, Script.host_orderly _, _, rfl, rfl, rfl, rfl, rfl, rfl⟩

end World

end Supervisor
