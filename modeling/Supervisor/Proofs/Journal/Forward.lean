import Mathlib.Data.List.Chain
import Supervisor.Proofs.Flight.Basic
import Supervisor.Proofs.Journal.Turn
import Supervisor.Script

/-!
# What only moves forward

Until its next reset a session goes one way. `Account.Forward` says what its flags and its process
may have become by some later moment: shutdown, termination and invalidation stay, a process that
was recorded is there, and a session that is not valid any more was invalidated and is not made
valid again. Each turn of a course leads forward where the proxy is not reset
(`World.Turn.forward`), and so do all of them together (`World.Turns.forward`).

`flags_monotonic` reads this off the moments of a run, those in the middle of operations included,
and `lifecycle_forward` off the state before and after an operation.
-/

set_option autoImplicit false
set_option relaxedAutoImplicit false

namespace Supervisor

/-! ### From one moment to a later one -/

namespace Account

/-- What the one may have become, without a reset, by the time of the other. -/
structure Forward (a a' : Account) : Prop where
  pid : a.pid.isSome = true → a'.pid.isSome = true
  shutdown : a.shutdown = true → a'.shutdown = true
  terminated : a.terminated = true → a'.terminated = true
  invalidated : a.invalidated = true → a'.invalidated = true
  withdrawn : a.valid = true → a'.valid = false → a'.invalidated = true
  barred : a.invalidated = true → a'.valid = true → a.valid = true
  /-- Who was invalidated is not terminated any more. -/
  spared : a.invalidated = true → a'.terminated = a.terminated

namespace Forward

variable {a a' a'' : Account}

theorem refl (a : Account) : a.Forward a where
  pid := id
  shutdown := id
  terminated := id
  invalidated := id
  withdrawn valid invalid := absurd (valid.symm.trans invalid) nofun
  barred _ := id
  spared _ := rfl

theorem trans (first : a.Forward a') (second : a'.Forward a'') : a.Forward a'' where
  pid := second.pid ∘ first.pid
  shutdown := second.shutdown ∘ first.shutdown
  terminated := second.terminated ∘ first.terminated
  invalidated := second.invalidated ∘ first.invalidated
  withdrawn valid invalid := by
    cases between : a'.valid with
    | false => exact second.invalidated (first.withdrawn valid between)
    | true => exact second.withdrawn between invalid
  barred invalidated := first.barred invalidated ∘ second.barred (first.invalidated invalidated)
  spared invalidated :=
    (second.spared (first.invalidated invalidated)).trans (first.spared invalidated)

/-- Where validity and termination are left alone, only the rest matters. -/
theorem of_eq (valid : a'.valid = a.valid) (invalidated : a'.invalidated = a.invalidated)
    (terminated : a'.terminated = a.terminated) (pid : a.pid.isSome = true → a'.pid.isSome = true)
    (shutdown : a.shutdown = true → a'.shutdown = true) : a.Forward a' where
  pid := pid
  shutdown := shutdown
  terminated := terminated.trans
  invalidated := invalidated.trans
  withdrawn was invalid := absurd (was.symm.trans (valid.symm.trans invalid)) nofun
  barred _ := valid.symm.trans
  spared _ := terminated

end Forward

theorem forward_invalidate (a : Account) : a.Forward a.invalidate where
  pid := id
  shutdown := id
  terminated := id
  invalidated invalidated := by simp [invalidate, invalidated]
  withdrawn valid _ := by simp [invalidate, valid]
  barred _ valid := by cases valid
  spared _ := rfl

theorem forward_edit (a : Account) (e : Edit) : a.Forward (a.edit e) := by
  cases e with
  | setValid value =>
    cases value with
    | false => exact a.forward_invalidate
    | true =>
      show a.Forward (if a.invalidated then a else { a with valid := true })
      by_cases invalidated : a.invalidated = true
      · rw [if_pos invalidated]
        exact .refl a
      · rw [if_neg invalidated]
        exact ⟨id, id, id, id, nofun, fun before ↦ absurd before invalidated, fun _ ↦ rfl⟩
  | setShutdown value =>
    exact .of_eq rfl rfl rfl id fun asked ↦ by simp [edit, asked]
  | _ => exact .refl a

theorem Going.forward_ended {a : Account} (going : a.Going) :
    a.Forward { a.invalidate with terminated := true } where
  pid := id
  shutdown := id
  terminated _ := rfl
  invalidated invalidated := by simp [going.invalidated] at invalidated
  withdrawn valid _ := by simp [invalidate, valid]
  barred _ valid := by cases valid
  spared invalidated := by simp [going.invalidated] at invalidated

end Account

/-- An event that is no reset leads forward, if a termination finds a session that may be
terminated. -/
theorem Event.forward_tell {h : Handle} {e : Event} {a : Account} (live : e ≠ .fresh h)
    (fits : e = .ended h → a.Going) : a.Forward (e.tell h a) := by
  cases Event.view live with
  | edited e =>
    rw [tell, if_pos rfl]
    exact a.forward_edit e
  | requested intent =>
    rw [tell, if_pos rfl]
    exact .of_eq rfl rfl rfl id fun _ ↦ rfl
  | ended =>
    rw [tell, if_pos rfl]
    exact (fits rfl).forward_ended
  | recorded pid =>
    rw [tell, if_pos rfl]
    exact .of_eq rfl rfl rfl (fun _ ↦ rfl) id
  | aside silent =>
    rw [silent]
    exact .refl a

/-! ### Turns -/

namespace World

variable {σ : Type} {control : ProcessControl σ} {base w w' : World σ} {h : Handle}
  {told : List Event}

theorem Turn.resets_eq (turn : w.Turn w' told) (h : Handle) :
    w'.resets h = told.count (.fresh h) + w.resets h := by
  rw [resets, turn.journal, List.count_append]
  rfl

theorem Turn.forward (turn : w.Turn w' told) (kept : .fresh h ∉ told) :
    (w.session h).account.Forward (w'.session h).account := by
  rw [turn.accounts]
  cases turn.enters with
  | nothing => exact .refl _
  | @plain e plain =>
    refine Event.forward_tell (fun fresh ↦ kept (fresh ▸ List.mem_cons_self)) ?_
    rintro rfl
    exact plain.elim
  | @ended k going =>
    refine Event.forward_tell (e := .ended k) nofun fun same ↦ ?_
    obtain rfl := Event.ended.inj same
    exact going
  | @signalled k _ going =>
    refine Event.forward_tell (e := .ended k) nofun fun same ↦ ?_
    obtain rfl := Event.ended.inj same
    exact going
  | @acquired slot =>
    exact Event.forward_tell (e := .fresh (.pooled slot)) (fun fresh ↦ kept (by simp [fresh])) nofun
  | @released slot =>
    exact Event.forward_tell (e := .fresh (.pooled slot)) (fun fresh ↦ kept (by simp [fresh])) nofun

theorem Turns.resets_le (turns : base.Turns w) (h : Handle) : base.resets h ≤ w.resets h := by
  induction turns with
  | refl => exact Nat.le_refl _
  | tail _ turn ih =>
    obtain ⟨told, turn⟩ := turn
    rw [turn.resets_eq]
    exact Nat.le_add_left_of_le ih

theorem Turns.forward (turns : base.Turns w) (same : w.resets h = base.resets h) :
    (base.session h).account.Forward (w.session h).account := by
  induction turns with
  | refl => exact .refl _
  | @tail w w' before turn ih =>
    obtain ⟨told, turn⟩ := turn
    have earlier := Turns.resets_le before h
    have count := turn.resets_eq h
    have kept : .fresh h ∉ told := List.count_eq_zero.mp (by omega)
    exact (ih (by omega)).trans (turn.forward kept)

end World

theorem Course.forward {σ : Type} {control : ProcessControl σ} {base w : World σ} {h : Handle}
    (course : Course control base w) (same : w.resets h = base.resets h) :
    (base.session h).account.Forward (w.session h).account :=
  course.turns.forward same

/-! ### Moments of a run -/

section

variable {σ : Type} {control : ProcessControl σ} {base : World σ}

/-- States of one run in their order. The run may be in the middle of an operation at any of them,
and any number of turns may lie between one and the next. -/
structure Moments (control : ProcessControl σ) (base : World σ) (ws : List (World σ)) : Prop where
  reached : ∀ w ∈ ws, Course control base w
  ordered : ws.IsChain World.Turns

theorem Moments.pairwise {ws : List (World σ)} (moments : Moments control base ws) :
    ws.Pairwise World.Turns :=
  haveI : Trans (World.Turns (σ := σ)) World.Turns World.Turns := ⟨Relation.ReflTransGen.trans⟩
  moments.ordered.pairwise

theorem Moments.next {ws : List (World σ)} {w w' : World σ} (moments : Moments control base ws)
    (last : ws.getLast? = some w) (course : Course control w w') :
    Moments control base (ws ++ [w']) := by
  constructor
  · intro u found
    rcases List.mem_append.mp found with earlier | now
    · exact moments.reached u earlier
    · obtain rfl := List.mem_singleton.mp now
      exact (moments.reached w (List.mem_of_getLast? last)).trans course
  · refine moments.ordered.append (.singleton w') ?_
    rintro u found u' now
    obtain rfl := Option.some.inj (last.symm.trans found)
    obtain rfl := Option.some.inj now
    exact course.turns

end

namespace World

variable {σ : Type} {host : Host σ} {base w v : World σ} {op : Operation} {f : Flight σ}
  {sent : Except IoFault Unit}

theorem course_takeStaged (control : ProcessControl σ) (h : Handle) (kind : PayloadKind)
    (w : World σ) : Course control w (w.takeStaged h kind) := by
  unfold takeStaged
  split
  · exact .start
  · exact .take .start h kind

theorem course_prepared (control : ProcessControl σ) (op : Operation) (w : World σ) :
    Course control w (w.prepared op) := by
  cases op with
  | sendStaged h kind => exact course_takeStaged control h kind w
  | requestShutdown h delay enable => exact .intend .start h _
  | setInflate h factor sendOver => exact .setInflate .start h factor
  | verifyAlive h timeout => exact .openPing .start h
  | _ => exact .start

/-- What an operation does before its frame is handed over. -/
theorem course_handed (control : ProcessControl σ) (found : w.flight? op = some f) :
    Course control w f.handed := by
  rw [(flight?_eq_some found).2]
  exact (course_prepared control op w).note _ trivial

/-- What an operation does once its link has given the frame back. -/
theorem turns_land (op : Operation) (w : World σ) (d : Dispatch) (sent : Except IoFault Unit)
    (v : World σ) : v.Turns (w.land op sent (acknowledge d sent v)) := by
  have acknowledged : v.Turns (acknowledge d sent v) := by
    cases sent with
    | ok => exact Turns.note .refl trivial
    | error fault => exact .refl
  cases op with
  | sendStaged h kind =>
    unfold land
    dsimp only
    split
    · split
      · exact acknowledged
      · exact acknowledged.restore h kind _
    · exact acknowledged
  | verifyAlive h timeout => exact acknowledged.modify h ⟨rfl, rfl⟩
  | _ => exact acknowledged

/-- The moments of an operation over a link: before it, with its frame handed over, with the frame
given back, and after it. -/
theorem moments_of_flight (course : Course host.toProcessControl base w)
    (orderly : host.Orderly) (found : w.flight? op = some f)
    (transmitted : host.transmit f.dispatch.link f.dispatch.frame f.handed = (sent, v)) :
    Moments host.toProcessControl base [w, f.handed, v, (w.perform host op).2] := by
  have handed := course_handed host.toProcessControl found
  have given : Course host.toProcessControl f.handed v := by
    have taken := (orderly f.dispatch.link f.dispatch.frame f.handed).course
    rwa [transmitted] at taken
  have landed : v.Turns (w.perform host op).2 := by
    rw [perform_of_flight found transmitted]
    exact turns_land op w f.dispatch sent v
  have performed := course_perform host w (orderly.gentleFrom w) op
  constructor
  · intro u found
    simp only [List.mem_cons, List.not_mem_nil, or_false] at found
    rcases found with rfl | rfl | rfl | rfl
    · exact course
    · exact course.trans handed
    · exact course.trans (handed.trans given)
    · exact course.trans performed
  · exact .cons_cons handed.turns (.cons_cons given.turns (.cons_cons landed (.singleton _)))

end World

/-! ### Flags and process -/

/-- False at first, and then true. -/
def Rises (values : List Bool) : Prop :=
  ∃ i j, values = List.replicate i false ++ List.replicate j true

/-- False at first, then true, and false again in the end. -/
def RisesAndFalls (values : List Bool) : Prop :=
  ∃ i j k, values = List.replicate i false ++ List.replicate j true ++ List.replicate k false

theorem rises_of_pairwise {values : List Bool}
    (kept : values.Pairwise fun before after ↦ before = true → after = true) : Rises values := by
  induction values with
  | nil => exact ⟨0, 0, rfl⟩
  | cons value values ih =>
    obtain ⟨later, rest⟩ := List.pairwise_cons.mp kept
    cases value with
    | false =>
      obtain ⟨i, j, split⟩ := ih rest
      exact ⟨i + 1, j, congrArg (false :: ·) split⟩
    | true =>
      refine ⟨0, values.length + 1, congrArg (true :: ·) ?_⟩
      exact List.eq_replicate_of_mem fun after found ↦ later after found rfl

namespace Account

variable {a : Account} {accounts : List Account}

/-- Who was invalidated is not made valid again. -/
theorem valid_eq_replicate (later : ∀ a' ∈ accounts, a.Forward a') (invalid : a.valid = false)
    (invalidated : a.invalidated = true) :
    accounts.map valid = List.replicate accounts.length false := by
  rw [List.map_eq_replicate_iff]
  intro a' found
  by_contra valid
  rw [Bool.not_eq_false] at valid
  exact absurd (invalid.symm.trans ((later a' found).barred invalidated valid)) nofun

theorem falls_of_pairwise (later : ∀ a' ∈ accounts, a.Forward a')
    (forward : accounts.Pairwise Forward) (valid : a.valid = true) :
    ∃ j k, accounts.map Account.valid = List.replicate j true ++ List.replicate k false := by
  induction accounts generalizing a with
  | nil => exact ⟨0, 0, rfl⟩
  | cons next accounts ih =>
    obtain ⟨rest, forward⟩ := List.pairwise_cons.mp forward
    cases found : next.valid with
    | true =>
      obtain ⟨j, k, split⟩ := ih rest forward found
      exact ⟨j + 1, k, by rw [List.map_cons, found, split]; rfl⟩
    | false =>
      have invalidated := (later next List.mem_cons_self).withdrawn valid found
      exact ⟨0, accounts.length + 1,
        by rw [List.map_cons, found, valid_eq_replicate rest found invalidated]; rfl⟩

theorem risesAndFalls_of_pairwise (forward : accounts.Pairwise Forward) :
    RisesAndFalls (accounts.map valid) := by
  induction accounts with
  | nil => exact ⟨0, 0, 0, rfl⟩
  | cons a accounts ih =>
    obtain ⟨later, forward⟩ := List.pairwise_cons.mp forward
    cases found : a.valid with
    | false =>
      obtain ⟨i, j, k, split⟩ := ih forward
      exact ⟨i + 1, j, k, by rw [List.map_cons, found, split]; rfl⟩
    | true =>
      obtain ⟨j, k, split⟩ := falls_of_pairwise later forward found
      exact ⟨0, j + 1, k, by rw [List.map_cons, found, split]; rfl⟩

end Account

namespace World

variable {σ : Type} {control : ProcessControl σ} {base : World σ} {h : Handle}

/-- Between two resets a session becomes valid once at most and ceases to be so once at most.
Shutdown, termination and the recording of a process are for good. -/
theorem flags_monotonic {ws : List (World σ)} (moments : Moments control base ws)
    (same : ∀ w ∈ ws, ∀ w' ∈ ws, w'.resets h = w.resets h) :
    RisesAndFalls (ws.map fun w ↦ (w.session h).valid) ∧
      Rises (ws.map fun w ↦ (w.session h).shutdown) ∧
      Rises (ws.map fun w ↦ (w.session h).terminated) ∧
      Rises (ws.map fun w ↦ (w.session h).pid.isSome) := by
  have forward : ws.Pairwise fun w w' ↦ (w.session h).account.Forward (w'.session h).account :=
    moments.pairwise.imp_of_mem fun found found' turns ↦ turns.forward (same _ found _ found')
  refine ⟨?_, ?_, ?_, ?_⟩
  · have accounts := Account.risesAndFalls_of_pairwise (List.pairwise_map.mpr forward)
    rwa [List.map_map] at accounts
  · exact rises_of_pairwise (List.pairwise_map.mpr (forward.imp Account.Forward.shutdown))
  · exact rises_of_pairwise (List.pairwise_map.mpr (forward.imp Account.Forward.terminated))
  · exact rises_of_pairwise (List.pairwise_map.mpr (forward.imp Account.Forward.pid))

/-- A running session whose link takes each frame with the action. -/
def runningOver (action : LinkAction) : World Script :=
  (Script.connect (.standalone 0) "worker" [action]
    (start Settings.standard ({} : Script) ⟨0⟩ Calendar.Timestamp.epoch)).performAll
      (Script.host Script.control)
        [.setServer (.standalone 0) 42, .edit (.standalone 0) (.setValid true)]

theorem reachable_runningOver (action : LinkAction) :
    (runningOver action).Reachable Script.control := by
  have orderly : (Script.host Script.control).Orderly := Script.host_orderly Script.control
  have linked : Reaches Script.control (start Settings.standard ({} : Script) ⟨0⟩
      Calendar.Timestamp.epoch) _ := (Reaches.refl _).change { links := [⟨.standalone 0, [action]⟩] }
  refine Reachable.performAll orderly ?_ _
  exact (reachable_start Script.control _ _ _ _).trans
    (linked.trans (.of_perform orderly _ (.edit (.standalone 0) (.setLink (some ⟨0, "worker"⟩)))))

/-- A session is invalidated while it is told of its shutdown over a link that then fails. To make
it valid again is in vain. -/
theorem flags_monotonic_invalidated :
    let h := Handle.standalone 0
    let host := Script.host Script.control
    let w := runningOver { hooks := [.invalidate], failure := some (.system .brokenPipe) }
    let op := Operation.requestShutdown h Duration.zero true
    let f := (w.flight? op).get rfl
    let v := (host.transmit f.dispatch.link f.dispatch.frame f.handed).2
    let after := (w.perform host op).2
    let ws := [w, f.handed, v, after, (after.edit h (.setValid true)).2]
    Moments Script.control w ws ∧ (∀ u ∈ ws, ∀ u' ∈ ws, u'.resets h = u.resets h) ∧
      RisesAndFalls (ws.map fun u ↦ (u.session h).valid) ∧
      ws.map (fun u ↦ (u.session h).valid) = [true, true, false, false, false] ∧
      ws.map (fun u ↦ (u.session h).shutdown) = [false, true, true, true, true] := by
  intro h host w op f v after ws
  have orderly : host.Orderly := Script.host_orderly Script.control
  have found : w.flight? op = some f := (Option.some_get rfl).symm
  have moments : Moments Script.control w ws :=
    (moments_of_flight .start orderly found (Prod.eta _).symm).next rfl
      (.edit .start h (.setValid true))
  have same : ∀ u ∈ ws, ∀ u' ∈ ws, u'.resets h = u.resets h := by decide
  exact ⟨moments, same, (flags_monotonic moments same).1, rfl, rfl⟩

end World

/-! ### Lifecycle -/

namespace Account

def lifecycle (a : Account) : Lifecycle :=
  if a.terminated then .terminated
  else if a.invalidated then .invalid
  else if a.shutdown then .shutdownRequested
  else if a.valid && a.pid.isSome then .running
  else .created

variable {a a' : Account}

theorem Going.lifecycle_eq (going : a.Going) : a.lifecycle =
    if a.shutdown then .shutdownRequested
    else if a.valid && a.pid.isSome then .running
    else .created := by
  rw [lifecycle, if_neg (Bool.eq_false_iff.mp going.terminated),
    if_neg (Bool.eq_false_iff.mp going.invalidated)]

theorem lifecycle_of_not_going (ended : ¬ a.Going) :
    a.lifecycle = .terminated ∨ a.lifecycle = .invalid := by
  unfold lifecycle
  by_cases terminated : a.terminated = true
  · exact .inl (if_pos terminated)
  · have invalidated : a.invalidated = true := by
      by_contra kept
      exact ended ⟨eq_false_of_ne_true terminated, eq_false_of_ne_true kept⟩
    rw [if_neg terminated, if_pos invalidated]
    exact .inr rfl

theorem Going.lifecycle_ne (going : a.Going) :
    ¬ (a.lifecycle = .terminated ∨ a.lifecycle = .invalid) := by
  rw [going.lifecycle_eq]
  split
  · exact nofun
  split
  · exact nofun
  · exact nofun

end Account

theorem Lifecycle.rank_le (l : Lifecycle) : l.rank ≤ 3 := by
  cases l <;> decide

namespace Account.Forward

variable {a a' : Account} (forward : a.Forward a')
include forward

/-- A session that has come to its end keeps to the way in which it has. -/
theorem lifecycle_eq (ended : ¬ a.Going) : a'.lifecycle = a.lifecycle := by
  unfold lifecycle
  by_cases terminated : a.terminated = true
  · rw [if_pos terminated, if_pos (forward.terminated terminated)]
  · have invalidated : a.invalidated = true := by
      by_contra kept
      exact ended ⟨eq_false_of_ne_true terminated, eq_false_of_ne_true kept⟩
    rw [forward.spared invalidated, if_neg terminated, if_neg terminated, if_pos invalidated,
      if_pos (forward.invalidated invalidated)]

/-- A session that keeps going stays valid, and so keeps all that its rank stands on. -/
theorem rank_le_of_going (going : a.Going) (going' : a'.Going) :
    a.lifecycle.rank ≤ a'.lifecycle.rank := by
  have valid : a.valid = true → a'.valid = true := by
    intro before
    by_contra withdrawn
    have invalidated := forward.withdrawn before (eq_false_of_ne_true withdrawn)
    exact absurd (invalidated.symm.trans going'.invalidated) nofun
  rw [going.lifecycle_eq, going'.lifecycle_eq]
  by_cases asked : a.shutdown = true
  · rw [if_pos asked, if_pos (forward.shutdown asked)]
  rw [if_neg asked]
  by_cases running : (a.valid && a.pid.isSome) = true
  · obtain ⟨before, recorded⟩ := Bool.and_eq_true_iff.mp running
    have still : (a'.valid && a'.pid.isSome) = true :=
      Bool.and_eq_true_iff.mpr ⟨valid before, forward.pid recorded⟩
    rw [if_pos running, if_pos still]
    split
    · decide
    · decide
  · rw [if_neg running]
    exact Nat.zero_le _

theorem rank_le : a.lifecycle.rank ≤ a'.lifecycle.rank := by
  by_cases going : a.Going
  · by_cases going' : a'.Going
    · exact forward.rank_le_of_going going going'
    · have highest : a'.lifecycle.rank = 3 := by
        rcases lifecycle_of_not_going going' with ended | ended
        · rw [ended]
          rfl
        · rw [ended]
          rfl
      rw [highest]
      exact a.lifecycle.rank_le
  · rw [forward.lifecycle_eq going]

end Account.Forward

namespace World

variable {σ : Type} {host : Host σ} {h : Handle}

/-- An operation that does not reset a session never takes it back in its lifecycle, and leaves it
where it is once it is terminated or invalid. -/
theorem lifecycle_forward (orderly : host.Orderly) (op : Operation) (w : World σ)
    (kept : (w.perform host op).2.resets h = w.resets h) :
    let before := (w.session h).lifecycle
    let after := ((w.perform host op).2.session h).lifecycle
    before.rank ≤ after.rank ∧ (before = .terminated ∨ before = .invalid → after = before) := by
  intro before after
  have course := course_perform host w (orderly.gentleFrom w) op
  have forward := course.forward kept
  refine ⟨forward.rank_le, fun ended ↦ forward.lifecycle_eq fun going ↦ ?_⟩
  exact going.lifecycle_ne ended

/-- A running session is invalidated while it is pinged. A termination after that leaves it invalid
and does not make it terminated. -/
theorem lifecycle_forward_invalidated :
    let h := Handle.standalone 0
    let host := Script.host Script.control
    let w := runningOver { hooks := [.invalidate] }
    let pinged := (w.perform host (.verifyAlive h Duration.zero)).2
    let ended := (pinged.perform host (.terminate h)).2
    w.Reachable Script.control ∧ host.Orderly ∧ pinged.resets h = w.resets h ∧
      ended.resets h = pinged.resets h ∧ (w.session h).lifecycle = .running ∧
      (w.session h).lifecycle.rank ≤ (pinged.session h).lifecycle.rank ∧
      (pinged.session h).lifecycle = .invalid ∧ (ended.session h).lifecycle = .invalid := by
  intro h host w pinged ended
  have orderly : host.Orderly := Script.host_orderly Script.control
  have invalid : (pinged.session h).lifecycle = .invalid := rfl
  have still := (lifecycle_forward orderly (.terminate h) pinged rfl).2 (.inr invalid)
  exact ⟨reachable_runningOver _, orderly, rfl, rfl, rfl,
    (lifecycle_forward orderly (.verifyAlive h Duration.zero) w rfl).1, invalid,
    still.trans invalid⟩

end World

end Supervisor
