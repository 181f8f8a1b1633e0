import Supervisor.Proofs.Flight.Successor
import Supervisor.Proofs.Staging.Filling

/-!
# Payloads that are superseded

A send that fails puts its payload back where the slot is empty by then. That the slot is empty does
not say why: nothing was staged while the frame was under way, or something newer was and is gone
again. In the second case an older payload comes back in the place of a newer one
(`Sending.Revives`).

`sendStaged_supersedes_iff` is that there is no other way for a payload to come back after it was
superseded, and that in a run where it never happens every send hands over what was staged last, so
that no payload goes out after a newer one was staged. Two facts about slots carry this along a run,
through sends inside of sends: an empty slot is filled by nothing but staging
(`slot_of_nothing_staged`), and what is in a slot is what was staged last
(`slotInvariant_holdsNewest`).
-/

set_option autoImplicit false
set_option relaxedAutoImplicit false

namespace Supervisor

variable {σ : Type}

/-- A payload was staged since. -/
def World.StagedSince (h : Handle) (kind : PayloadKind) (base w : World σ) : Prop :=
  ∃ content, .edited h (.stage kind content) ∈ w.since base

namespace Sending

/-- The link gives a payload back after a newer one was staged and is gone again, and the older one
is put back. -/
def Revives (h : Handle) (kind : PayloadKind) (s : Sending σ) : Prop :=
  s.call.operation = .sendStaged h kind ∧
    World.PutsBack s.call.operation s.sent s.returned ∧
    s.call.world.StagedSince h kind s.returned

/-- Whoever reads the frame finds in it what was staged last. -/
def Newest (h : Handle) (kind : PayloadKind) (s : Sending σ) : Prop :=
  ∃ content, s.flight.dispatch.payload? kind = some content ∧
    (stagings h kind s.call.world.journal).getLast? = some content

end Sending

namespace World

variable {h : Handle} {kind : PayloadKind} {host : Host σ} {control : ProcessControl σ}
  {base u v w : World σ}

/-- The world in which an operation goes on after its frame. If no frame is handed over, that is the
one in which it was called. -/
def returned (host : Host σ) (op : Operation) (w : World σ) : World σ :=
  ((Call.sending? host ⟨op, w⟩).map Sending.returned).getD w

/-- What a send that failed leaves in the slot, where `w` is the world in which it began and `v` the
one in which the link gave the frame back. -/
structure Supersedes (h : Handle) (kind : PayloadKind) (w v after : World σ) : Prop where
  /-- If a newer payload was staged meanwhile, nothing more happens to the slot. -/
  newer : w.StagedSince h kind v → after.slot h kind = v.slot h kind
  /-- If nothing happened to the slot meanwhile, the payload is back. -/
  untouched : ¬ w.StagedSince h kind v → .edited h (.unstage kind) ∉ v.since w →
    .fresh h ∉ v.since w → after.slot h kind = w.slot h kind

/-! ### What was staged -/

theorem stagings_eq_nil_iff {events : List Event} :
    stagings h kind events = [] ↔ ∀ content, .edited h (.stage kind content) ∉ events := by
  rw [stagings, slotChanges, List.filterMap_filterMap, List.filterMap_eq_nil_iff]
  constructor
  · intro none content told
    have staged := none _ (List.mem_reverse.mpr told)
    rw [Event.slotChange?, if_pos ⟨rfl, rfl⟩] at staged
    cases staged
  · intro absent e told
    have told := List.mem_reverse.mp told
    cases e with
    | edited k e =>
      cases e with
      | stage other content =>
        have elsewhere : ¬ (k = h ∧ other = kind) := by
          rintro ⟨rfl, rfl⟩
          exact absent content told
        rw [Event.slotChange?, if_neg elsewhere]
        rfl
      | unstage other =>
        rw [Event.slotChange?]
        split
        · rfl
        · rfl
      | _ => rfl
    | accepted d =>
      rw [Event.slotChange?]
      split
      · cases d.payload? kind <;> rfl
      · rfl
    | _ => rfl

theorem not_stagedSince_iff : ¬ base.StagedSince h kind w ↔ stagings h kind (w.since base) = [] := by
  rw [stagings_eq_nil_iff, StagedSince, not_exists]

theorem stagings_edit (w : World σ) (content : Bytes) :
    stagings h kind (w.edit h (.stage kind content)).2.journal =
      stagings h kind w.journal ++ [content] := by
  have change : (Event.edited h (.stage kind content)).slotChange? h kind = some (.staged content) :=
    if_pos ⟨rfl, rfl⟩
  show stagings h kind (.edited h (.stage kind content) :: w.journal) = _
  rw [stagings, slotChanges_cons, change, List.filterMap_append]
  rfl

theorem slot_edit_stage (kept : kind ≠ .requirements) (w : World σ) (content : Bytes) :
    (w.edit h (.stage kind content)).2.slot h kind = some content := by
  have slot : (w.edit h (.stage kind content)).2.slot h kind =
      ((w.session h).stage kind content).staged kind :=
    congrArg (·.session.staged kind) (proxy_edit_self w h _)
  rw [slot, Session.stage, Session.staged_setStaged, if_pos rfl, if_neg fun cleared ↦ kept cleared.1]

/-! ### Two invariants of a slot -/

/-- The slot is empty unless something was staged. -/
def EmptySince (h : Handle) (kind : PayloadKind) (base w : World σ) : Prop :=
  ∃ news, w.journal = news ++ base.journal ∧
    (stagings h kind news = [] → w.slot h kind = none)

theorem slotInvariant_emptySince (base : World σ) :
    SlotInvariant h kind (fun _ ↦ True) (base.EmptySince h kind) where
  unfilled := by
    rintro w w' ⟨late, journal, none, slot⟩ ⟨early, known, empty⟩
    refine ⟨late ++ early, by rw [journal, known, List.append_assoc], fun nothing ↦ ?_⟩
    rw [stagings_append] at nothing
    have before := empty (List.append_eq_nil_iff.mp nothing).1
    exact slot.elim (fun same ↦ same.trans before) id
  stage := by
    rintro w content ⟨early, known, -⟩
    refine ⟨.edited h (.stage kind content) :: early, congrArg (_ :: ·) known, fun nothing ↦ ?_⟩
    exact absurd List.mem_cons_self (stagings_eq_nil_iff.mp nothing content)
  putBack := by
    rintro s fault content - - - staged ⟨late, extended⟩ ⟨early, known, empty⟩ ⟨news, journal, -⟩
    have split : news = late ++ early := by
      refine (List.append_left_inj base.journal).mp ?_
      rw [← journal, ← extended, known, List.append_assoc]
    refine ⟨news, journal, fun nothing ↦ ?_⟩
    rw [split, stagings_append] at nothing
    -- what is put back had been staged before it was taken
    cases staged.symm.trans (empty (List.append_eq_nil_iff.mp nothing).1)

/-- An empty slot stays empty until something is staged. -/
theorem slot_of_nothing_staged (kept : kind ≠ .requirements) (run : Reaches control u v)
    (empty : u.slot h kind = none) (nothing : ¬ u.StagedSince h kind v) : v.slot h kind = none := by
  obtain ⟨sendings, told⟩ := run.exists_sends
  obtain ⟨⟨news, journal, still⟩, -⟩ := told.invariant (slotInvariant_emptySince u) kept
    (fun _ _ ↦ trivial) ⟨[], rfl, fun _ ↦ empty⟩
  refine still ?_
  rw [← since_eq journal]
  exact not_stagedSince_iff.mp nothing

/-- What is in the slot was staged last. -/
def HoldsNewest (h : Handle) (kind : PayloadKind) (w : World σ) : Prop :=
  ∀ content, w.slot h kind = some content → (stagings h kind w.journal).getLast? = some content

theorem slotInvariant_holdsNewest (kept : kind ≠ .requirements) :
    SlotInvariant (σ := σ) h kind (fun s ↦ ¬ s.Revives h kind) (HoldsNewest h kind) where
  unfilled := by
    rintro w w' ⟨news, journal, none, slot⟩ newest content staged
    have before : w.slot h kind = some content := by
      rcases slot with same | empty
      · exact same.symm.trans staged
      · cases empty.symm.trans staged
    have same : stagings h kind w'.journal = stagings h kind w.journal := by
      rw [journal, stagings_append]
      exact (congrArg (_ ++ ·) none).trans (List.append_nil _)
    rw [same]
    exact newest content before
  stage := by
    intro w content _ other staged
    obtain rfl := Option.some.inj ((slot_edit_stage kept w content).symm.trans staged)
    rw [stagings_edit, List.getLast?_append]
    rfl
  putBack := by
    rintro s fault content lawful own failed staged ⟨late, extended⟩ before after other found
    rw [slot_restore, if_pos rfl] at found
    obtain rfl := Option.some.inj found
    show (stagings h kind s.returned.journal).getLast? = _
    cases given : s.returned.slot h kind with
    | some newer => exact after newer given
    | none =>
      have nothing : ¬ s.call.world.StagedSince h kind s.returned := fun newer ↦
        lawful ⟨own, ⟨h, kind, fault, own, kept, failed, given⟩, newer⟩
      have none : stagings h kind late = [] := by
        rw [← since_eq extended.symm]
        exact not_stagedSince_iff.mp nothing
      rw [← extended, stagings_append]
      exact (congrArg List.getLast? ((congrArg (_ ++ ·) none).trans (List.append_nil _))).trans
        (before content staged)

/-! ### How a send that failed ends -/

theorem returned_of_sending {op : Operation} {s : Sending σ}
    (sending : Call.sending? host ⟨op, w⟩ = some s) : w.returned host op = s.returned := by
  rw [returned, sending, Option.map_some, Option.getD_some]

theorem Untouched.slot_eq (untouched : w.Untouched) : w.slot h kind = none := by
  obtain ⟨settings, createdAt, new⟩ := untouched.2.2 h
  rw [slot, session, new]
  cases kind <;> rfl

/-- A frame of the payload of a slot carries what is in it. -/
theorem payload?_of_flight {f : Flight σ} (found : w.flight? (.sendStaged h kind) = some f) :
    ∃ content, w.slot h kind = some content ∧ f.dispatch.payload? kind = some content := by
  obtain ⟨content, staged, offered⟩ := Option.bind_eq_some_iff.mp found
  refine ⟨content, staged, ?_⟩
  rw [payload?_of_encode (offer?_eq_some offered).2.1]
  exact if_pos rfl

/-- A send fails with its frame. -/
theorem fst_sendStaged_of_flight {f : Flight σ} {sent : Except IoFault Unit}
    (found : w.flight? (.sendStaged h kind) = some f)
    (transmitted : host.transmit f.dispatch.link f.dispatch.frame f.handed = (sent, v)) :
    (w.sendStaged host h kind).1 = (sent.mapError Fault.transport).map fun _ ↦ true := by
  obtain ⟨content, staged, offered⟩ := Option.bind_eq_some_iff.mp found
  have passed := send_of_offer offered transmitted
  unfold takeStaged at passed
  unfold sendStaged
  simp only [staged, passed]
  cases sent with
  | ok => rfl
  | error fault => rfl

/-- A payload that the link gives back is put back for want of another one in its place. -/
theorem slot_of_given_back {f : Flight σ} {cause : IoFault} {content : Bytes}
    (kept : kind ≠ .requirements) (staged : w.slot h kind = some content)
    (found : w.flight? (.sendStaged h kind) = some f)
    (transmitted : host.transmit f.dispatch.link f.dispatch.frame f.handed = (.error cause, v)) :
    (w.sendStaged host h kind).2.slot h kind = some ((v.slot h kind).getD content) := by
  have ended : (w.sendStaged host h kind).2 = v.restore h kind content := by
    refine (perform_of_flight found transmitted).trans ?_
    unfold slot at staged
    unfold land acknowledge
    simp only [staged, if_neg kept]
  rw [ended, slot_restore, if_pos rfl]

/-- A payload that was not handed over is where it was. -/
theorem slot_of_no_flight {fault : Fault} (kept : kind ≠ .requirements)
    (failed : (w.sendStaged host h kind).1 = .error fault)
    (silent : w.flight? (.sendStaged h kind) = none) :
    (w.sendStaged host h kind).2.slot h kind = w.slot h kind := by
  cases staged : w.slot h kind with
  | none =>
    rw [sendStaged_of_empty host staged] at failed
    cases failed
  | some content =>
    rcases sendStaged_cases host staged with ⟨fault, back⟩ | ⟨f, _, offered, -, -⟩
    · rw [back, slot_putBack_of_flown staged kept (Still.refl _ _), staged]
    · have flies : w.flight? (.sendStaged h kind) = some f :=
        Option.bind_eq_some_iff.mpr ⟨content, staged, offered⟩
      cases silent.symm.trans flies

/-- If nothing was staged while the frame of a payload was under way, the slot is empty when the
link gives the frame back. -/
theorem slot_of_flown {f : Flight σ} {sent : Except IoFault Unit} (kept : kind ≠ .requirements)
    (orderly : host.Orderly) (found : w.flight? (.sendStaged h kind) = some f)
    (transmitted : host.transmit f.dispatch.link f.dispatch.frame f.handed = (sent, v))
    (nothing : ¬ w.StagedSince h kind v) : v.slot h kind = none := by
  have run := orderly f.dispatch.link f.dispatch.frame f.handed
  rw [transmitted] at run
  have handed := (flight?_eq_some found).2
  have empty : f.handed.slot h kind = none := by
    rw [handed, slot_note]
    exact (slot_takeStaged w h kind kind).trans (if_pos ⟨rfl, kept⟩)
  refine slot_of_nothing_staged kept run empty ?_
  rintro ⟨content, staged⟩
  have journal : f.handed.journal = .offered f.dispatch :: w.journal := by
    rw [handed, journal_note]
    exact congrArg (_ :: ·) (journal_takeStaged w h kind)
  have later := run.course.turns.journal_eq
  rw [journal, List.append_cons] at later
  refine nothing ⟨content, ?_⟩
  rw [since_eq later]
  exact List.mem_append_left _ staged

/-- A send that fails leaves its slot as it should, unless it revives a payload. -/
theorem supersedes_iff {fault : Fault} (kept : kind ≠ .requirements) (orderly : host.Orderly)
    (failed : (w.sendStaged host h kind).1 = .error fault) :
    w.Supersedes h kind (w.returned host (.sendStaged h kind)) (w.sendStaged host h kind).2 ↔
      ∀ s, Call.sending? host ⟨.sendStaged h kind, w⟩ = some s → ¬ s.Revives h kind := by
  cases found : w.flight? (.sendStaged h kind) with
  | none =>
    have same := slot_of_no_flight kept failed found
    have missing : Call.sending? host ⟨.sendStaged h kind, w⟩ = none :=
      Option.map_eq_none_iff.mpr found
    rw [returned, missing]
    exact iff_of_true ⟨fun _ ↦ same, fun _ _ _ ↦ same⟩ fun s some ↦ by cases some
  | some f =>
    rcases transmitted : host.transmit f.dispatch.link f.dispatch.frame f.handed with ⟨sent, v⟩
    obtain ⟨content, staged, -⟩ := payload?_of_flight found
    have sending : Call.sending? host ⟨.sendStaged h kind, w⟩ =
        some ⟨⟨.sendStaged h kind, w⟩, f, sent, v⟩ := Call.sending?_of_flight found transmitted
    rw [fst_sendStaged_of_flight found transmitted] at failed
    cases sent with
    | ok => cases failed
    | error cause =>
      have after := slot_of_given_back kept staged found transmitted
      rw [returned_of_sending sending, sending]
      constructor
      · rintro supersedes s same ⟨-, ⟨_, _, _, own, -, -, empty⟩, newer⟩
        obtain rfl := Option.some.inj same
        obtain ⟨rfl, rfl⟩ := Operation.sendStaged.inj own
        -- the slot cannot be as the link left it, which is empty
        have kept_empty := (supersedes.newer newer).trans empty
        cases after.symm.trans kept_empty
      · intro lawful
        refine ⟨fun newer ↦ ?_, fun nothing _ _ ↦ ?_⟩
        · cases given : v.slot h kind with
          | some content' => rw [after, given, Option.getD_some]
          | none =>
            exact absurd ⟨rfl, ⟨h, kind, cause, rfl, kept, rfl, given⟩, newer⟩ (lawful _ rfl)
        · rw [after, slot_of_flown kept orderly found transmitted nothing, Option.getD_none, staged]

/-- A send of a start message or query number that fails leaves in the slot what became of newer
payloads, and the old one only where nothing happened to the slot, exactly if it revives nothing. In
a run where no payload is revived, whatever is sent from the slot was staged last. -/
theorem sendStaged_supersedes_iff (h : Handle) (kind : PayloadKind) (kept : kind ≠ .requirements) :
    (∀ host : Host σ, host.Orderly → ∀ w fault, (w.sendStaged host h kind).1 = .error fault →
      (w.Supersedes h kind (w.returned host (.sendStaged h kind)) (w.sendStaged host h kind).2 ↔
        ∀ s, Call.sending? host ⟨.sendStaged h kind, w⟩ = some s → ¬ s.Revives h kind)) ∧
    (∀ control (origin w : World σ) sendings, origin.Untouched → Sends control origin sendings w →
      (∀ s ∈ sendings, ¬ s.Revives h kind) →
        ∀ s ∈ sendings, s.call.operation = .sendStaged h kind → s.Newest h kind) := by
  refine ⟨fun host orderly w fault failed ↦ supersedes_iff kept orderly failed, ?_⟩
  intro control origin w sendings untouched told lawful s mem own
  have empty : origin.HoldsNewest h kind := fun content staged ↦ by
    cases untouched.slot_eq.symm.trans staged
  obtain ⟨-, newest⟩ := told.invariant (slotInvariant_holdsNewest kept) kept lawful empty
  have found := told.flight?_eq mem
  rw [own] at found
  obtain ⟨content, staged, carried⟩ := payload?_of_flight found
  exact ⟨content, carried, newest s mem content staged⟩

theorem sends_patchy (link : Link) (frame : Bytes) (w : World (List (Option IoFault))) :
    Sends patchy.toProcessControl w [] (patchy.transmit link frame w).2 := by
  unfold patchy
  dsimp only
  split
  · exact (Sends.refl w).change _
  · exact (Sends.refl w).change _
  · exact .refl w

/-- A newer start message that is staged while the old one is sent stays when that fails. And where
nothing is staged meanwhile, the old one is sent once more, and then the newer one. -/
theorem supersedes_of_restaged :
    let h := Handle.standalone 0
    let host := Script.host Script.control
    let w := oneStaged { hooks := [.restage [2] [3]], failure := some (.system .brokenPipe) }
    let v := w.returned host (.sendStaged h .startMsg)
    let after := (w.sendStaged host h .startMsg).2
    let script := [some (.system .brokenPipe), none]
    let origin := start Settings.standard script ⟨0⟩ Calendar.Timestamp.epoch
    PayloadKind.startMsg ≠ .requirements ∧ host.Orderly ∧ w.StagedSince h .startMsg v ∧
      w.Supersedes h .startMsg v after ∧ after.slot h .startMsg = some [2] ∧
      origin.Untouched ∧ ∃ sendings u, Sends patchy.toProcessControl origin sendings u ∧
        sendings.map (·.flight.dispatch.payload? .startMsg) = [some [1], some [1], some [2]] ∧
        ∀ s ∈ sendings, s.call.operation = .sendStaged h .startMsg → s.Newest h .startMsg := by
  intro h host w v after script origin
  have kept : PayloadKind.startMsg ≠ .requirements := by decide
  have orderly : host.Orderly := Script.host_orderly Script.control
  have failed : (w.sendStaged host h .startMsg).1 = .error (.transport (.system .brokenPipe)) := rfl
  have newer : w.StagedSince h .startMsg v := ⟨[2], by decide⟩
  have supersedes : w.Supersedes h .startMsg v after := by
    refine ((sendStaged_supersedes_iff h .startMsg kept).1 host orderly w _ failed).mpr ?_
    rintro s sending ⟨own, ⟨_, _, _, same, -, -, empty⟩, -⟩
    obtain ⟨rfl, rfl⟩ := Operation.sendStaged.inj (own.symm.trans same)
    have given : v.slot h .startMsg = some [2] := rfl
    rw [← returned_of_sending sending] at empty
    cases given.symm.trans empty
  have untouched : origin.Untouched := untouched_start _ _ _ _
  have step {sendings : List (Sending _)} {u : World _}
      (run : Sends patchy.toProcessControl origin sendings u) (op : Operation) :=
    run.perform op patchy.transmit (fun _ _ _ ↦ []) sends_patchy
  have run := step (step (step (step (step (step (.refl origin)
    (.edit h (.setLink (some ⟨0, "worker"⟩)))) (.edit h (.stage .startMsg [1])))
    (.sendStaged h .startMsg)) (.sendStaged h .startMsg)) (.edit h (.stage .startMsg [2])))
    (.sendStaged h .startMsg)
  obtain ⟨sendings, u, run, carried, quiet⟩ : ∃ sendings u,
      Sends patchy.toProcessControl origin sendings u ∧
      sendings.map (·.flight.dispatch.payload? .startMsg) = [some [1], some [1], some [2]] ∧
      sendings.map (fun s ↦ stagings h .startMsg (s.returned.since s.call.world)) = [[], [], []] :=
    ⟨_, _, run, by decide, by decide⟩
  refine ⟨kept, orderly, newer, supersedes, rfl, untouched, sendings, u, run, carried, ?_⟩
  refine (sendStaged_supersedes_iff h .startMsg kept).2 _ origin _ _ untouched run fun s mem ↦ ?_
  rintro ⟨-, -, staged⟩
  have meanwhile := List.mem_map_of_mem
    (f := fun s : Sending _ ↦ stagings h .startMsg (s.returned.since s.call.world)) mem
  rw [quiet] at meanwhile
  exact not_stagedSince_iff.mpr (by simpa using meanwhile) staged

/-- A newer start message is staged and gone again by the time the link gives the old one back, and
then the old one is in the slot again. -/
theorem revived_after_reset :
    let h := Handle.standalone 0
    let host := Script.host Script.control
    let w := oneStaged { hooks := [.restage [2] [3], .reset], failure := some (.system .brokenPipe) }
    let v := w.returned host (.sendStaged h .startMsg)
    let after := (w.sendStaged host h .startMsg).2
    w.Reachable Script.control ∧ host.Orderly ∧
      (w.sendStaged host h .startMsg).1 = .error (.transport (.system .brokenPipe)) ∧
      w.StagedSince h .startMsg v ∧ v.slot h .startMsg = none ∧
      after.slot h .startMsg = some [1] ∧ ¬ w.Supersedes h .startMsg v after := by
  intro h host w v after
  have newer : w.StagedSince h .startMsg v := ⟨[2], by decide⟩
  refine ⟨reachable_oneStaged _, Script.host_orderly _, rfl, newer, rfl, rfl, fun supersedes ↦ ?_⟩
  have empty : after.slot h .startMsg = none := supersedes.newer newer
  cases empty

end World

end Supervisor
