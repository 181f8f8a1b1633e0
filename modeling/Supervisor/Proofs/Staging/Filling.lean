import Supervisor.Proofs.Speech.Sendings
import Supervisor.Proofs.Staging.Delivery

/-!
# What fills a slot

A payload comes into a slot in two ways: it is staged, or a send that failed puts it back.
`World.Unfilled` says that neither happened on the way, so that the slot holds what it held or
nothing. What is to be true of a slot all along a run has to survive these three (`SlotInvariant`),
and then it is true at the end of the run and whenever a frame is handed to a link, however deep the
sends are nested (`Sends.invariant`).
-/

set_option autoImplicit false
set_option relaxedAutoImplicit false

namespace Supervisor

variable {σ : Type}

namespace World

/-- On the way nothing was staged, and the slot holds what it held or nothing. -/
def Unfilled (h : Handle) (kind : PayloadKind) (w w' : World σ) : Prop :=
  ∃ news, w'.journal = news ++ w.journal ∧ stagings h kind news = [] ∧
    (w'.slot h kind = w.slot h kind ∨ w'.slot h kind = none)

variable {h k : Handle} {kind other : PayloadKind} {u v w w' : World σ}

theorem Still.unfilled (still : w.Still h v) (kind : PayloadKind) : w.Unfilled h kind v := by
  obtain ⟨news, journal, slots⟩ := still
  refine ⟨news, journal, ?_, (slots kind).2.imp_right And.right⟩
  rw [stagings, (slots kind).1]
  rfl

namespace Unfilled

theorem refl (h : Handle) (kind : PayloadKind) (w : World σ) : w.Unfilled h kind w :=
  (Still.refl h w).unfilled kind

theorem trans (first : u.Unfilled h kind v) (second : v.Unfilled h kind w) :
    u.Unfilled h kind w := by
  obtain ⟨early, before, none, slot⟩ := first
  obtain ⟨late, after, none', slot'⟩ := second
  refine ⟨late ++ early, by rw [after, before, List.append_assoc], ?_, ?_⟩
  · rw [stagings_append, none, List.nil_append]
    exact none'
  · rcases slot' with same | empty
    · rw [same]
      exact slot
    · exact .inr empty

theorem of_journal (journal : w'.journal = w.journal)
    (slot : w'.slot h kind = w.slot h kind ∨ w'.slot h kind = none) : w.Unfilled h kind w' :=
  ⟨[], journal, rfl, slot⟩

theorem note {e : Event} (silent : (e.slotChange? h kind).bind SlotChange.staged? = none)
    (w : World σ) : w.Unfilled h kind (w.note e) := by
  refine ⟨[e], rfl, ?_, .inl rfl⟩
  cases change : e.slotChange? h kind with
  | none => simp [stagings, slotChanges, change]
  | some change' =>
    rw [change, Option.bind_some] at silent
    simp [stagings, slotChanges, change, silent]

/-- Other proxies are out of reach. -/
theorem modify_of_ne (ne : h ≠ k) (f : Proxy → Proxy) (w : World σ) :
    w.Unfilled h kind (w.modify k f) :=
  of_journal rfl (.inl (congrArg (·.session.staged kind) (proxy_modify_of_ne w f ne)))

theorem edit {e : Edit} (elsewhere : ∀ content, ¬ (k = h ∧ e = .stage kind content))
    (w : World σ) : w.Unfilled h kind (w.edit k e).2 := by
  by_cases stages : k = h ∧ e.Stages
  · obtain ⟨rfl, stages⟩ := stages
    have slot : (w.edit k e).2.slot k kind = (e.apply (w.proxy k)).2.session.staged kind :=
      congrArg (·.session.staged kind) (proxy_edit_self w k e)
    cases e with
    | stage other content =>
      have ne : other ≠ kind := fun same ↦ elsewhere content ⟨rfl, same ▸ rfl⟩
      refine ⟨[.edited k (.stage other content)], rfl, ?_, .inl ?_⟩
      · rw [stagings, slotChanges_cons, Event.slotChange?, if_neg fun here ↦ ne here.2]
        rfl
      · exact slot.trans ((Session.staged_setStaged _ _ _ _).trans (if_neg ne.symm))
    | unstage other =>
      refine ⟨[.edited k (.unstage other)], rfl, ?_, ?_⟩
      · rw [stagings, slotChanges_cons, Event.slotChange?]
        split
        · rfl
        · rfl
      · rw [slot, show (Edit.apply (.unstage other) (w.proxy k)).2.session.staged kind =
          if kind = other then none else w.slot k kind from Session.staged_setStaged _ _ _ _]
        split
        · exact .inr rfl
        · exact .inl rfl
    | _ => exact stages.elim
  · exact (Still.edit stages w).unfilled kind

/-! ### Sends -/

theorem takeStaged (k : Handle) (other : PayloadKind) (w : World σ) :
    w.Unfilled h kind (w.takeStaged k other) := by
  refine of_journal (journal_takeStaged w k other) ?_
  by_cases own : h = k
  · subst own
    rw [slot_takeStaged]
    split
    · exact .inr rfl
    · exact .inl rfl
  · unfold World.takeStaged
    split
    · exact .inl rfl
    · exact .inl (congrArg (·.session.staged kind) (proxy_modify_of_ne w _ own))

theorem restore (apart : ¬ (k = h ∧ other = kind)) (content : Bytes) (w : World σ) :
    w.Unfilled h kind (w.restore k other content) := by
  by_cases own : k = h
  · subst own
    refine of_journal rfl (.inl ?_)
    rw [slot_restore, if_neg fun same ↦ apart ⟨rfl, same.symm⟩]
  · exact modify_of_ne (Ne.symm own) _ w

theorem prepared (op : Operation) (w : World σ) : w.Unfilled h kind (w.prepared op) := by
  cases op with
  | sendStaged k other => exact takeStaged k other w
  | requestShutdown k delay enable =>
    have intended : w.Still h (w.intend k delay enable) :=
      (Still.modify (fun _ kind ↦ by cases kind <;> rfl) k w).trans (Still.note (fun _ ↦ rfl) _)
    exact intended.unfilled kind
  | setInflate k factor sendOver =>
    have inflated : w.Still h (w.inflate k factor) :=
      Still.modify (fun _ kind ↦ by cases kind <;> rfl) k w
    exact inflated.unfilled kind
  | verifyAlive k timeout =>
    have opened : w.Still h (w.put k (w.proxy k).openPing.2) := Still.put fun own kind ↦ by
      rw [Proxy.staged_openPing, own]
      rfl
    exact opened.unfilled kind
  | _ => exact refl h kind w

/-- A frame is handed over. -/
theorem handed {op : Operation} {f : Flight σ} (found : w.flight? op = some f) :
    w.Unfilled h kind f.handed := by
  rw [(flight?_eq_some found).2]
  exact (prepared op w).trans (note rfl _)

theorem acknowledge (d : Dispatch) (sent : Except IoFault Unit) (v : World σ) :
    v.Unfilled h kind (acknowledge d sent v) := by
  cases sent with
  | error fault => exact refl h kind v
  | ok =>
    refine note ?_ v
    rw [Event.slotChange?]
    split
    · cases d.payload? kind <;> rfl
    · rfl

/-- Whatever an operation does after its frame, it does not put this payload back. -/
theorem land {op : Operation} (apart : op ≠ .sendStaged h kind) (sent : Except IoFault Unit)
    (v : World σ) : v.Unfilled h kind (w.land op sent v) := by
  cases op with
  | sendStaged k other =>
    unfold World.land
    dsimp only
    split
    · split
      · exact refl h kind v
      · exact restore (fun same ↦ apart (by rw [same.1, same.2])) _ v
    · exact refl h kind v
  | verifyAlive k timeout =>
    exact (Still.modify (fun _ kind ↦ by cases kind <;> rfl) k v).unfilled kind
  | _ => exact refl h kind v

/-- An operation that hands no frame over fills the slot by staging only. -/
theorem perform {host : Host σ} {op : Operation} (silent : w.flight? op = none)
    (single : op ≠ .sweep) (elsewhere : ∀ content, op ≠ .edit h (.stage kind content)) :
    w.Unfilled h kind (w.perform host op).2 := by
  by_cases stages : op.Stages h
  · cases op with
    | edit k e =>
      refine edit (fun content staging ↦ elsewhere content ?_) w
      rw [staging.1, staging.2]
    | send k m =>
      obtain ⟨fault, failed⟩ := send_of_no_offer host silent
      show w.Unfilled h kind (w.send host k (w.session k).channel m).2
      rw [failed]
      exact refl h kind w
    | sendStaged k other =>
      obtain rfl : k = h := stages
      show w.Unfilled k kind (w.sendStaged host k other).2
      cases staged : w.slot k other with
      | none =>
        rw [sendStaged_of_empty host staged]
        exact refl k kind w
      | some content =>
        rcases sendStaged_cases host staged with ⟨fault, failed⟩ | ⟨f, v, found, -, -⟩
        · rw [failed]
          exact ((Still.refl _ _).putBack staged).unfilled kind
        · have flies : w.flight? (.sendStaged k other) = some f :=
            Option.bind_eq_some_iff.mpr ⟨content, staged, found⟩
          cases silent.symm.trans flies
    | _ => exact stages.elim
  · rw [perform_of_no_flight silent single fun _ _ v ↦ (.ok (), v)]
    exact (Still.perform (fun _ _ v ↦ .refl h v) stages w).unfilled kind

end Unfilled

end World

/-! ### Along a run -/

/-- What stays true of a slot along a run in which the sendings are as `P` says: nothing else that
happens makes it false, and neither does staging a payload or putting one back. -/
structure SlotInvariant (h : Handle) (kind : PayloadKind) (P : Sending σ → Prop)
    (I : World σ → Prop) : Prop where
  unfilled : ∀ {w w' : World σ}, w.Unfilled h kind w' → I w → I w'
  stage : ∀ {w : World σ} (content : Bytes), I w → I (w.edit h (.stage kind content)).2
  putBack : ∀ {s : Sending σ} {fault : IoFault} {content : Bytes}, P s →
    s.call.operation = .sendStaged h kind → s.sent = .error fault →
    s.call.world.slot h kind = some content → s.call.world.journal <:+ s.returned.journal →
    I s.call.world → I s.returned → I (s.returned.restore h kind content)

/-- While a link has a frame, the sendings are the `inner` ones, and the invariant is kept as long
as they are as `P` says. -/
def Host.Keeps (host : Host σ) (P : Sending σ → Prop) (I : World σ → Prop)
    (inner : Link → Bytes → World σ → List (Sending σ)) : Prop :=
  ∀ link frame v, (∀ s ∈ inner link frame v, P s) → I v →
    I (host.transmit link frame v).2 ∧ ∀ s ∈ inner link frame v, I s.call.world

namespace SlotInvariant

variable {h : Handle} {kind : PayloadKind} {P : Sending σ → Prop} {I : World σ → Prop}
  {host : Host σ} {inner : Link → Bytes → World σ → List (Sending σ)} {w : World σ}

/-- What an operation does once its link has given the frame back. -/
theorem land (inv : SlotInvariant h kind P I) (kept : kind ≠ .requirements) {s : Sending σ}
    (lawful : P s) (found : s.call.world.flight? s.call.operation = some s.flight)
    (later : s.call.world.journal <:+ s.returned.journal) (before : I s.call.world)
    (holds : I s.returned) :
    I (s.call.world.land s.call.operation s.sent
      (World.acknowledge s.flight.dispatch s.sent s.returned)) := by
  by_cases own : s.call.operation = .sendStaged h kind
  · cases given : s.sent with
    | ok =>
      rw [own]
      exact inv.unfilled (World.Unfilled.acknowledge _ (.ok ()) _) holds
    | error fault =>
      rw [own] at found ⊢
      obtain ⟨content, staged, -⟩ := Option.bind_eq_some_iff.mp found
      unfold World.land World.acknowledge
      simp only [staged, if_neg kept]
      exact inv.putBack lawful own given staged later before holds
  · exact inv.unfilled (World.Unfilled.land own _ _)
      (inv.unfilled (World.Unfilled.acknowledge _ _ _) holds)

/-- One call of an operation, whatever is sent while its frame is under way. -/
theorem call (inv : SlotInvariant h kind P I) (kept : kind ≠ .requirements)
    (during : host.Keeps P I inner)
    (extends_journal : ∀ link frame v, v.journal <:+ (host.transmit link frame v).2.journal)
    {op : Operation} (single : op ≠ .sweep)
    (lawful : ∀ s ∈ Call.sendings host inner ⟨op, w⟩, P s) (holds : I w) :
    I (w.perform host op).2 ∧ ∀ s ∈ Call.sendings host inner ⟨op, w⟩, I s.call.world := by
  cases found : w.flight? op with
  | none =>
    have silent : Call.sendings host inner ⟨op, w⟩ = [] := Call.sendings_of_no_flight found
    rw [silent]
    refine ⟨?_, List.forall_mem_nil _⟩
    by_cases staging : ∃ content, op = .edit h (.stage kind content)
    · obtain ⟨content, rfl⟩ := staging
      exact inv.stage content holds
    · exact inv.unfilled (.perform found single (not_exists.mp staging)) holds
  | some f =>
    rcases transmitted : host.transmit f.dispatch.link f.dispatch.frame f.handed with ⟨sent, v⟩
    have sendings : Call.sendings host inner ⟨op, w⟩ =
        ⟨⟨op, w⟩, f, sent, v⟩ :: inner f.dispatch.link f.dispatch.frame f.handed :=
      Call.sendings_of_flight found transmitted
    rw [sendings] at lawful ⊢
    obtain ⟨own, nested⟩ := List.forall_mem_cons.mp lawful
    have handed : w.Unfilled h kind f.handed := .handed found
    have before : I f.handed := inv.unfilled handed holds
    obtain ⟨returned, meanwhile⟩ := during _ _ _ nested before
    have flown := extends_journal f.dispatch.link f.dispatch.frame f.handed
    rw [transmitted] at returned flown
    obtain ⟨news, journal, -, -⟩ := handed
    have later : w.journal <:+ v.journal :=
      List.IsSuffix.trans ⟨news, journal.symm⟩ flown
    rw [World.perform_of_flight found transmitted]
    exact ⟨inv.land kept own found later holds returned,
      List.forall_mem_cons.mpr ⟨holds, meanwhile⟩⟩

end SlotInvariant

/-- An invariant of a slot holds after a run, and at every frame that is handed over in it. -/
theorem Sends.invariant {h : Handle} {kind : PayloadKind} {P : Sending σ → Prop}
    {I : World σ → Prop} (inv : SlotInvariant h kind P I) (kept : kind ≠ .requirements)
    {control : ProcessControl σ} {base w : World σ} {sendings : List (Sending σ)}
    (told : Sends control base sendings w) (lawful : ∀ s ∈ sendings, P s) (holds : I base) :
    I w ∧ ∀ s ∈ sendings, I s.call.world := by
  induction told with
  | refl w => exact ⟨holds, List.forall_mem_nil _⟩
  | perform run op transmit inner during first nested =>
    obtain ⟨earlier, later⟩ := List.forall_mem_append.mp lawful
    obtain ⟨reached, before⟩ := first earlier holds
    have law : CallLaw ⟨control, transmit⟩ fun u calls v ↦
        (∀ s ∈ calls.flatMap (Call.sendings ⟨control, transmit⟩ inner), P s) → I u →
          I v ∧ ∀ s ∈ calls.flatMap (Call.sendings ⟨control, transmit⟩ inner), I s.call.world :=
      { idle := fun v _ holds ↦ ⟨holds, List.forall_mem_nil _⟩
        append := fun first second lawful holds ↦ by
          rw [List.flatMap_append] at lawful ⊢
          obtain ⟨early, late⟩ := List.forall_mem_append.mp lawful
          obtain ⟨between, before⟩ := first early holds
          obtain ⟨reached, after⟩ := second late between
          exact ⟨reached, List.forall_mem_append.mpr ⟨before, after⟩⟩
        probe := fun k pid v _ holds ↦
          ⟨inv.unfilled ((World.Still.call (fun _ ↦ rfl) _ v).unfilled kind) holds,
            List.forall_mem_nil _⟩
        terminate := fun k v _ holds ↦
          ⟨inv.unfilled ((World.Still.terminate control k v).unfilled kind) holds,
            List.forall_mem_nil _⟩
        call := fun op v single lawful holds ↦ by
          rw [List.flatMap_singleton] at lawful ⊢
          exact inv.call kept (fun link frame v lawful holds ↦ nested link frame v lawful holds)
            (fun link frame v ↦ (during link frame v).extends_journal) single lawful holds }
    obtain ⟨ended, after⟩ := law.perform op _ later reached
    exact ⟨ended, List.forall_mem_append.mpr ⟨before, after⟩⟩
  | @change _ w' _ _ environment first =>
    obtain ⟨reached, before⟩ := first lawful holds
    have changed : w'.Unfilled h kind { w' with environment := environment } :=
      .of_journal rfl (.inl rfl)
    exact ⟨inv.unfilled changed reached, before⟩
  | remark _ outcome first =>
    obtain ⟨reached, before⟩ := first lawful holds
    exact ⟨inv.unfilled (.note rfl _) reached, before⟩

end Supervisor
