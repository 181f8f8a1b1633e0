import Supervisor.Proofs.Staging.Aside

/-!
# Delivery of staged payloads

While a staged payload is on its way, its slot is empty, unless it is requirements that were sent.
`sendStaged_cases` says how a send ends: the payload never reached the link, or the link gave it
back, and it is put back into its slot; or the link has taken it.

`Staging` are the runs in which no staging operation of one proxy runs inside of a send. In such a
run every operation is a step for each slot of that proxy but the one of the requirements
(`slotLaw_of_staging`), and every send delivers what is staged, or leaves it staged, or finds
nothing there (`staged_delivery`).
-/

set_option autoImplicit false
set_option relaxedAutoImplicit false

namespace Supervisor

variable {σ : Type}

namespace World

/-! ### How a send ends -/

variable {host : Host σ} {h : Handle} {kind : PayloadKind} {content : Bytes} {channel : Channel}
  {f : Flight σ} {w v : World σ}

/-- Puts a payload back that was not sent. -/
def putBack (h : Handle) (kind : PayloadKind) (content : Bytes) (w : World σ) : World σ :=
  if kind = .requirements then w else w.restore h kind content

theorem slot_setStaged (w : World σ) (h : Handle) (kind other : PayloadKind)
    (content : Option Bytes) :
    (w.modify h (Proxy.modify (Session.setStaged kind content))).slot h other =
      if other = kind then content else w.slot h other := by
  rw [slot, session, proxy_modify_self]
  exact Session.staged_setStaged _ _ _ _

theorem slot_takeStaged (w : World σ) (h : Handle) (kind other : PayloadKind) :
    (w.takeStaged h kind).slot h other =
      if other = kind ∧ kind ≠ .requirements then none else w.slot h other := by
  unfold takeStaged
  by_cases kept : kind = .requirements
  · rw [if_pos kept, if_neg fun taken ↦ taken.2 kept]
  · rw [if_neg kept, slot_setStaged]
    simp only [kept, ne_eq, not_false_eq_true, and_true]

theorem slot_restore (w : World σ) (h : Handle) (kind other : PayloadKind) (content : Bytes) :
    (w.restore h kind content).slot h other =
      if other = kind then some ((w.slot h kind).getD content) else w.slot h other := by
  unfold restore slot session
  rw [proxy_modify_self, Proxy.modify]
  dsimp only
  cases found : (w.proxy h).session.staged kind with
  | none => rw [Option.isNone_none, if_pos rfl, Session.staged_setStaged, Option.getD_none]
  | some newer =>
    rw [Option.isNone_some, if_neg Bool.false_ne_true, Option.getD_some]
    split
    next same => rw [same, found]
    · rfl

theorem slot_putBack (w : World σ) (h : Handle) (kind other : PayloadKind) (content : Bytes) :
    (w.putBack h kind content).slot h other =
      if other = kind ∧ kind ≠ .requirements then some ((w.slot h kind).getD content)
      else w.slot h other := by
  unfold putBack
  by_cases kept : kind = .requirements
  · rw [if_pos kept, if_neg fun taken ↦ taken.2 kept]
  · rw [if_neg kept, slot_restore]
    simp only [kept, ne_eq, not_false_eq_true, and_true]

@[simp] theorem journal_takeStaged (w : World σ) (h : Handle) (kind : PayloadKind) :
    (w.takeStaged h kind).journal = w.journal := by
  unfold takeStaged
  split
  · rfl
  · rfl

@[simp] theorem journal_putBack (w : World σ) (h : Handle) (kind : PayloadKind)
    (content : Bytes) : (w.putBack h kind content).journal = w.journal := by
  unfold putBack
  split
  · rfl
  · rfl

theorem sendStaged_of_empty (host : Host σ) (empty : w.slot h kind = none) :
    w.sendStaged host h kind = (.ok false, w) := by
  unfold slot at empty
  unfold sendStaged
  simp only [empty]

/-- A payload that is staged is not handed to a link, or handed over and given back, or taken. -/
theorem sendStaged_cases (host : Host σ) (staged : w.slot h kind = some content) :
    (∃ fault, w.sendStaged host h kind =
      (.error fault, (w.takeStaged h kind).putBack h kind content)) ∨
    ∃ f v, (w.takeStaged h kind).offer? h (w.session h).channel (.staged kind content) = some f ∧
      (host.transmit f.dispatch.link f.dispatch.frame f.handed).2 = v ∧
      ((∃ fault, w.sendStaged host h kind = (.error fault, v.putBack h kind content)) ∨
        w.sendStaged host h kind = (.ok true, v.note (.accepted f.dispatch))) := by
  unfold slot at staged
  unfold sendStaged putBack
  simp only [staged]
  cases offered : (w.takeStaged h kind).offer? h (w.session h).channel (.staged kind content) with
  | none =>
    obtain ⟨fault, failed⟩ := send_of_no_offer host offered
    unfold takeStaged at failed ⊢
    rw [failed]
    exact .inl ⟨fault, rfl⟩
  | some f =>
    refine .inr ⟨f, _, rfl, rfl, ?_⟩
    have passed := send_of_offer offered
      (Prod.eta (host.transmit f.dispatch.link f.dispatch.frame f.handed)).symm
    unfold takeStaged at passed
    rw [passed]
    cases (host.transmit f.dispatch.link f.dispatch.frame f.handed).1 with
    | error fault => exact .inl ⟨_, rfl⟩
    | ok => exact .inr rfl

/-- What is left where the link gives a payload back, or takes it. -/
theorem Still.flown (found : (w.takeStaged h kind).offer? h channel (.staged kind content) = some f)
    (still : f.handed.Still h v) : (w.takeStaged h kind).Still h v := by
  rw [(offer?_eq_some found).2.2] at still
  exact (Still.note (fun _ ↦ rfl) _).trans still

/-- A send that fails changes nothing about the slots. -/
theorem Still.putBack (staged : w.slot h kind = some content)
    (flown : (w.takeStaged h kind).Still h v) : w.Still h (v.putBack h kind content) := by
  obtain ⟨news, journal, slots⟩ := flown
  rw [journal_takeStaged] at journal
  refine ⟨news, by rw [journal_putBack, journal], fun other ↦ ⟨(slots other).1, ?_⟩⟩
  have here := (slots other).2
  rw [slot_putBack]
  rw [slot_takeStaged] at here
  split
  next taken =>
    have same := taken.1
    subst same
    rw [if_pos taken, or_iff_left_of_imp And.right] at here
    rw [here, staged]
    exact .inl rfl
  next other =>
    rw [if_neg other] at here
    exact here

/-- A payload that is put back is the one that was taken. -/
theorem slot_putBack_of_flown (staged : w.slot h kind = some content)
    (kept : kind ≠ .requirements) (flown : (w.takeStaged h kind).Still h v) :
    (v.putBack h kind content).slot h kind = w.slot h kind := by
  obtain ⟨news, -, slots⟩ := flown
  have here := (slots kind).2
  rw [slot_takeStaged, if_pos ⟨rfl, kept⟩, or_iff_left_of_imp And.right] at here
  rw [slot_putBack, if_pos ⟨rfl, kept⟩, here, staged]
  rfl

/-- A send that succeeds delivers what was staged, and nothing else happens to the slots. -/
theorem slotChanges_of_taken
    (found : (w.takeStaged h kind).offer? h channel (.staged kind content) = some f)
    {told : List Event} (other : PayloadKind) (quiet : slotChanges h other told = []) :
    slotChanges h other (.accepted f.dispatch :: told) =
      if other = kind then [.delivered content] else [] := by
  obtain ⟨owner, encoded, -⟩ := offer?_eq_some found
  have change : (Event.accepted f.dispatch).slotChange? h other =
      if other = kind then some (.delivered content) else none := by
    rw [Event.slotChange?, if_pos owner, payload?_of_encode encoded, Message.payload?]
    by_cases same : other = kind
    · rw [if_pos same, if_pos same.symm]
      rfl
    · rw [if_neg same, if_neg (Ne.symm same)]
      rfl
  rw [slotChanges_cons, quiet, change]
  split
  · rfl
  · rfl

/-- What a link takes is delivered. -/
theorem slotStep_of_taken
    (found : (w.takeStaged h kind).offer? h channel (.staged kind content) = some f)
    (staged : w.slot h kind = some content) (flown : (w.takeStaged h kind).Still h v)
    {other : PayloadKind} (kept : other ≠ .requirements) :
    w.SlotStep h other (v.note (.accepted f.dispatch)) := by
  obtain ⟨told, journal, slots⟩ := flown
  rw [journal_takeStaged] at journal
  refine ⟨.accepted f.dispatch :: told, congrArg (_ :: ·) journal, ?_⟩
  have here := (slots other).2
  rw [slotChanges_of_taken found other (slots other).1]
  rw [slot_takeStaged] at here
  by_cases same : other = kind
  · subst same
    rw [if_pos ⟨rfl, kept⟩, or_iff_left_of_imp And.right] at here
    rw [if_pos rfl, slot_note, here]
    exact .delivered content staged
  · rw [if_neg fun taken ↦ same taken.1] at here
    rw [if_neg same]
    exact .of_still (here.imp_right (And.imp_left (List.mem_cons_of_mem _)))

end World

/-- Runs of operations over links that may fail as they like, where no staging operation of the
proxy runs while a frame is under way, and its payloads are sent from their slots only. -/
inductive Staging (h : Handle) (control : ProcessControl σ) (base : World σ) : World σ → Prop
  | start : Staging h control base base
  | perform {w : World σ} (run : Staging h control base w) (op : Operation)
      (slotted : ∀ kind content, op ≠ .send h (.staged kind content))
      (transmit : Link → Bytes → World σ → Except IoFault Unit × World σ)
      (during : ∀ link frame v, Avoids (Operation.Stages h) control v (transmit link frame v).2) :
      Staging h control base (w.perform ⟨control, transmit⟩ op).2
  | change {w : World σ} (run : Staging h control base w) (environment : σ) :
      Staging h control base { w with environment := environment }
  | remark {w : World σ} (run : Staging h control base w) (outcome : Except Fault Unit) :
      Staging h control base (w.note (.noted outcome))

namespace World

/-- What it is to send what is staged: the result and the world after. -/
structure StagedSend (h : Handle) (kind : PayloadKind) (w : World σ) (result : Except Fault Bool)
    (after : World σ) : Prop where
  extends_journal : w.journal <:+ after.journal
  empty : result = .ok false ↔ w.slot h kind = none
  idle : result = .ok false → after = w
  failed : ∀ fault, result = .error fault → deliveries h kind (after.since w) = []
  restored : ∀ fault, result = .error fault → kind ≠ .requirements →
    after.slot h kind = w.slot h kind
  sent : result = .ok true → ∃ content, w.slot h kind = some content ∧
    deliveries h kind (after.since w) = [content]
  released : result = .ok true → kind ≠ .requirements → after.slot h kind = none
  kept : kind = .requirements → after.slot h kind = w.slot h kind ∨
    .fresh h ∈ after.since w ∧ after.slot h kind = none

variable {host : Host σ} {h : Handle} {kind : PayloadKind} {w : World σ}

theorem stagedSend_of_empty (empty : w.slot h kind = none) :
    w.StagedSend h kind (.ok false) w where
  extends_journal := List.suffix_refl _
  empty := iff_of_true rfl empty
  idle _ := rfl
  failed _ failed := by cases failed
  restored _ failed := by cases failed
  sent done := by simp at done
  released done := by simp at done
  kept _ := .inl rfl

theorem stagedSend_of_failed {content : Bytes} {v : World σ} (staged : w.slot h kind = some content)
    (flown : (w.takeStaged h kind).Still h v) (fault : Fault) :
    w.StagedSend h kind (.error fault) (v.putBack h kind content) := by
  obtain ⟨news, journal, slots⟩ := flown.putBack staged
  have told := since_eq journal
  constructor
  · exact ⟨news, journal.symm⟩
  · simp [staged]
  · intro none
    cases none
  · intro _ _
    rw [told, deliveries, (slots kind).1]
    rfl
  · exact fun _ _ kept ↦ slot_putBack_of_flown staged kept flown
  · intro done
    cases done
  · intro done
    cases done
  · intro _
    rw [told]
    exact (slots kind).2

theorem stagedSend_of_taken {content : Bytes} {channel : Channel} {f : Flight σ} {v : World σ}
    (found : (w.takeStaged h kind).offer? h channel (.staged kind content) = some f)
    (staged : w.slot h kind = some content) (flown : (w.takeStaged h kind).Still h v) :
    w.StagedSend h kind (.ok true) (v.note (.accepted f.dispatch)) := by
  obtain ⟨news, journal, slots⟩ := flown
  rw [journal_takeStaged] at journal
  have noted : (v.note (.accepted f.dispatch)).journal = (.accepted f.dispatch :: news) ++ w.journal :=
    congrArg (_ :: ·) journal
  have told := since_eq noted
  have here := (slots kind).2
  rw [slot_takeStaged] at here
  constructor
  · exact ⟨_, noted.symm⟩
  · simp [staged]
  · intro none
    simp at none
  · intro _ failed
    cases failed
  · intro _ failed
    cases failed
  · intro _
    refine ⟨content, staged, ?_⟩
    rw [told, deliveries, slotChanges_of_taken found kind (slots kind).1, if_pos rfl]
    rfl
  · intro _ kept
    rw [if_pos ⟨rfl, kept⟩, or_iff_left_of_imp And.right] at here
    exact here
  · intro kept
    rw [if_neg fun taken ↦ taken.2 kept] at here
    rw [told]
    exact here.imp_right (And.imp_left (List.mem_cons_of_mem _))

theorem stagedSend_sendStaged (still : host.StillFor h) (kind : PayloadKind) (w : World σ) :
    w.StagedSend h kind (w.sendStaged host h kind).1 (w.sendStaged host h kind).2 := by
  cases staged : w.slot h kind with
  | none =>
    rw [sendStaged_of_empty host staged]
    exact stagedSend_of_empty staged
  | some content =>
    rcases sendStaged_cases host staged with
      ⟨fault, failed⟩ | ⟨f, v, found, rfl, ⟨fault, failed⟩ | done⟩
    · rw [failed]
      exact stagedSend_of_failed staged (.refl _ _) fault
    · rw [failed]
      exact stagedSend_of_failed staged (.flown found (still _ _ _)) fault
    · rw [done]
      exact stagedSend_of_taken found staged (.flown found (still _ _ _))

/-! ### Runs -/

theorem slotStep_edit (kept : kind ≠ .requirements) (w : World σ) (h : Handle) (e : Edit) :
    w.SlotStep h kind (w.edit h e).2 := by
  have slot_edit : (w.edit h e).2.slot h kind = (e.apply (w.proxy h)).2.session.staged kind :=
    congrArg (·.session.staged kind) (proxy_edit_self w h e)
  by_cases stages : e.Stages
  · refine ⟨[.edited h e], rfl, ?_⟩
    rw [slotChanges_cons, slot_edit]
    cases e with
    | stage other content =>
      by_cases same : other = kind
      · subst same
        have put : ((Edit.stage other content).apply (w.proxy h)).2.session =
            (w.session h).setStaged other (some content) :=
          congrArg ((w.session h).setStaged other) (if_neg fun cleared ↦ kept cleared.1)
        rw [Event.slotChange?, if_pos ⟨rfl, rfl⟩, put, Session.staged_setStaged, if_pos rfl]
        exact .staged content
      · rw [Event.slotChange?, if_neg fun here ↦ same here.2]
        exact .of_still (.inl ((Session.staged_setStaged _ _ _ _).trans (if_neg (Ne.symm same))))
    | unstage other =>
      by_cases same : other = kind
      · rw [Event.slotChange?, if_pos ⟨rfl, same⟩]
        have gone : ((Edit.unstage other).apply (w.proxy h)).2.session.staged kind = none :=
          (Session.staged_setStaged _ _ _ _).trans (if_pos same.symm)
        rw [gone]
        exact .cleared
      · rw [Event.slotChange?, if_neg fun here ↦ same here.2]
        exact .of_still (.inl ((Session.staged_setStaged _ _ _ _).trans (if_neg (Ne.symm same))))
    | _ => exact stages.elim
  · exact (Still.edit (fun own ↦ stages own.2) w).slotStep kind

theorem slotStep_sendStaged (still : host.StillFor h) (kind : PayloadKind) {other : PayloadKind}
    (kept : other ≠ .requirements) (w : World σ) :
    w.SlotStep h other (w.sendStaged host h kind).2 := by
  cases staged : w.slot h kind with
  | none =>
    rw [sendStaged_of_empty host staged]
    exact (Still.refl h w).slotStep other
  | some content =>
    rcases sendStaged_cases host staged with
      ⟨fault, failed⟩ | ⟨f, v, found, rfl, ⟨fault, failed⟩ | done⟩
    · rw [failed]
      exact ((Still.refl _ _).putBack staged).slotStep other
    · rw [failed]
      exact ((Still.flown found (still _ _ _)).putBack staged).slotStep other
    · rw [done]
      exact slotStep_of_taken found staged (.flown found (still _ _ _)) kept

theorem slotStep_perform (still : host.StillFor h) {op : Operation}
    (slotted : ∀ kind content, op ≠ .send h (.staged kind content)) (kept : kind ≠ .requirements)
    (w : World σ) : w.SlotStep h kind (w.perform host op).2 := by
  by_cases stages : op.Stages h
  · cases op with
    | edit k e =>
      obtain ⟨rfl, -⟩ := stages
      exact slotStep_edit kept w k e
    | sendStaged k sent =>
      obtain rfl := stages
      exact slotStep_sendStaged still sent kept w
    | send k m =>
      obtain ⟨rfl, sent, content, rfl⟩ := stages
      exact absurd rfl (slotted sent content)
    | _ => exact stages.elim
  · exact (Still.perform still stages w).slotStep kind

theorem slotLaw_of_staging {control : ProcessControl σ} {base : World σ}
    (run : Staging h control base w) (kept : kind ≠ .requirements) : base.SlotLaw h kind w := by
  induction run with
  | start => exact .refl h kind base
  | perform _ op slotted transmit during ih =>
    have still : Host.StillFor ⟨control, transmit⟩ h :=
      Host.Avoids.stillFor during
    exact ih.step (slotStep_perform still slotted kept _)
  | change _ environment ih => exact ih.step ((Still.of_eq rfl rfl).slotStep kind)
  | remark _ outcome ih => exact ih.step ((Still.note (fun _ ↦ rfl) _).slotStep kind)

/-- In a run in which no staging operation runs inside of a send, the slots of the query number and
the start message keep to their history, and each send of a payload delivers what is staged, leaves
it staged, or has nothing to do. -/
theorem staged_delivery {control : ProcessControl σ} {base : World σ}
    (run : Staging h control base w) :
    (∀ kind, kind ≠ .requirements → base.SlotLaw h kind w) ∧
    ∀ host : Host σ, host.Avoids (Operation.Stages h) → ∀ kind,
      w.StagedSend h kind (w.sendStaged host h kind).1 (w.sendStaged host h kind).2 :=
  ⟨fun _ kept ↦ slotLaw_of_staging run kept,
    fun _ avoids kind ↦ stagedSend_sendStaged avoids.stillFor kind w⟩

/-- Links that fail as it is written down for them. -/
def patchy : Host (List (Option IoFault)) where
  toProcessControl := ProcessControl.ofNone _
  transmit _ _ w :=
    match w.environment with
    | some fault :: rest => (.error fault, { w with environment := rest })
    | none :: rest => (.ok (), { w with environment := rest })
    | [] => (.ok (), w)

theorem patchy_avoids (avoided : Operation → Prop) : patchy.Avoids avoided := by
  intro link frame w
  show Avoids avoided (ProcessControl.ofNone _) w (patchy.transmit link frame w).2
  unfold patchy
  dsimp only
  split
  · exact (Avoids.refl w).change _
  · exact (Avoids.refl w).change _
  · exact .refl w

/-- A start message that could not be sent is replaced by a newer one, and only it is delivered. -/
theorem staged_delivery_replaced :
    let h := Handle.standalone 0
    let script := [some (.system .brokenPipe), none]
    let base := ((start Settings.standard script ⟨0⟩ Calendar.Timestamp.epoch).edit h
      (.setLink (some ⟨0, "worker"⟩))).2
    let failed := ((base.edit h (.stage .startMsg [1])).2.sendStaged patchy h .startMsg).2
    let sent := ((failed.edit h (.stage .startMsg [2])).2.sendStaged patchy h .startMsg).2
    Staging h patchy.toProcessControl base sent ∧ base.SlotLaw h .startMsg sent ∧
      stagings h .startMsg (sent.since base) = [[1], [2]] ∧
      deliveries h .startMsg (sent.since base) = [[2]] ∧
      failed.slot h .startMsg = some [1] ∧ (sent.sendStaged patchy h .startMsg).1 = .ok false := by
  intro h script base failed sent
  have avoids := patchy_avoids (Operation.Stages h)
  have run : Staging h patchy.toProcessControl base sent :=
    (((Staging.start.perform (.edit h (.stage .startMsg [1])) nofun patchy.transmit avoids).perform
      (.sendStaged h .startMsg) nofun patchy.transmit avoids).perform
        (.edit h (.stage .startMsg [2])) nofun patchy.transmit avoids).perform
          (.sendStaged h .startMsg) nofun patchy.transmit avoids
  obtain ⟨law, sends⟩ := staged_delivery run
  exact ⟨run, law .startMsg (by decide), by decide, by decide, by decide,
    (sends patchy avoids .startMsg).empty.mpr (by decide)⟩

end World

end Supervisor
