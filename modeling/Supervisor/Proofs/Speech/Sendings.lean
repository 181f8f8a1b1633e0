import Mathlib.Tactic.Choose
import Supervisor.Proofs.Course.Run
import Supervisor.Proofs.Journal.Turn
import Supervisor.Proofs.Speech.Calls

/-!
# What is handed to links

A `Sending` is one frame that a link was handed: the call that it belongs to, what the link
answered, and the world that the link handed back. `Sends` are the runs told together with their
sendings, those that were made while another frame was under way included. They come in the order in
which the frames were handed over, so that a frame precedes what happens while it is under way.
Every run can be told so (`Reaches.exists_sends`), and nothing else can (`Sends.reaches`).
-/

set_option autoImplicit false
set_option relaxedAutoImplicit false

namespace Supervisor

variable {σ : Type}

/-- A frame that a link was handed. -/
structure Sending (σ : Type) where
  call : Call σ
  flight : Flight σ
  sent : Except IoFault Unit
  /-- The world in which the call goes on. -/
  returned : World σ

namespace Call

/-- The frame of a call, if it comes to that. -/
def sending? (host : Host σ) (call : Call σ) : Option (Sending σ) :=
  (call.world.flight? call.operation).map fun f ↦
    ⟨call, f, (host.transmit f.dispatch.link f.dispatch.frame f.handed).1,
      (host.transmit f.dispatch.link f.dispatch.frame f.handed).2⟩

/-- The frames that are handed over because of a call: its own, and then those `inner` while that is
under way. -/
def sendings (host : Host σ) (inner : Link → Bytes → World σ → List (Sending σ))
    (call : Call σ) : List (Sending σ) :=
  match call.sending? host with
  | none => []
  | some s => s :: inner s.flight.dispatch.link s.flight.dispatch.frame s.flight.handed

variable {host : Host σ} {inner : Link → Bytes → World σ → List (Sending σ)} {call : Call σ}

theorem sending?_of_flight {f : Flight σ} {sent : Except IoFault Unit} {v : World σ}
    (found : call.world.flight? call.operation = some f)
    (transmitted : host.transmit f.dispatch.link f.dispatch.frame f.handed = (sent, v)) :
    call.sending? host = some ⟨call, f, sent, v⟩ := by
  rw [sending?, found, Option.map_some, transmitted]

theorem sendings_of_no_flight (silent : call.world.flight? call.operation = none) :
    call.sendings host inner = [] := by
  rw [sendings, sending?, silent]
  rfl

theorem sendings_of_flight {f : Flight σ} {sent : Except IoFault Unit} {v : World σ}
    (found : call.world.flight? call.operation = some f)
    (transmitted : host.transmit f.dispatch.link f.dispatch.frame f.handed = (sent, v)) :
    call.sendings host inner =
      ⟨call, f, sent, v⟩ :: inner f.dispatch.link f.dispatch.frame f.handed := by
  rw [sendings, sending?_of_flight found transmitted]

end Call

/-- Runs, with the frames that links were handed. -/
inductive Sends (control : ProcessControl σ) : World σ → List (Sending σ) → World σ → Prop
  | refl (w : World σ) : Sends control w [] w
  | perform {w w' : World σ} {sendings : List (Sending σ)} (run : Sends control w sendings w')
      (op : Operation) (transmit : Link → Bytes → World σ → Except IoFault Unit × World σ)
      (inner : Link → Bytes → World σ → List (Sending σ))
      (during : ∀ link frame v,
        Sends control v (inner link frame v) (transmit link frame v).2) :
      Sends control w
        (sendings ++
          (w'.calls ⟨control, transmit⟩ op).flatMap (Call.sendings ⟨control, transmit⟩ inner))
        (w'.perform ⟨control, transmit⟩ op).2
  | change {w w' : World σ} {sendings : List (Sending σ)} (run : Sends control w sendings w')
      (environment : σ) : Sends control w sendings { w' with environment := environment }
  | remark {w w' : World σ} {sendings : List (Sending σ)} (run : Sends control w sendings w')
      (outcome : Except Fault Unit) : Sends control w sendings (w'.note (.noted outcome))

variable {control : ProcessControl σ} {base w : World σ} {sendings : List (Sending σ)}

theorem Reaches.exists_sends (run : Reaches control base w) :
    ∃ sendings, Sends control base sendings w := by
  induction run with
  | refl w => exact ⟨[], .refl w⟩
  | perform _ op transmit _ first during =>
    obtain ⟨sendings, told⟩ := first
    choose inner nested using during
    exact ⟨_, told.perform op transmit inner nested⟩
  | change _ environment first =>
    obtain ⟨sendings, told⟩ := first
    exact ⟨sendings, told.change environment⟩
  | remark _ outcome first =>
    obtain ⟨sendings, told⟩ := first
    exact ⟨sendings, told.remark outcome⟩

/-- Nothing but runs can be told so. -/
theorem Sends.reaches (told : Sends control base sendings w) : Reaches control base w := by
  induction told with
  | refl w => exact .refl w
  | perform _ op transmit _ _ first during => exact first.perform op transmit during
  | change _ environment first => exact first.change environment
  | remark _ outcome first => exact first.remark outcome

/-- A frame that was handed over is that of its call. -/
theorem Sends.flight?_eq (told : Sends control base sendings w) {s : Sending σ}
    (mem : s ∈ sendings) : s.call.world.flight? s.call.operation = some s.flight := by
  induction told with
  | refl w => cases mem
  | perform _ op transmit inner _ first nested =>
    rcases List.mem_append.mp mem with earlier | later
    · exact first earlier
    obtain ⟨call, -, here⟩ := List.mem_flatMap.mp later
    cases found : call.world.flight? call.operation with
    | none =>
      rw [Call.sendings_of_no_flight found] at here
      cases here
    | some f =>
      rw [Call.sendings_of_flight found (Prod.eta _).symm] at here
      rcases List.mem_cons.mp here with rfl | deeper
      · exact found
      · exact nested _ _ _ deeper
  | change _ _ first => exact first mem
  | remark _ _ first => exact first mem

theorem Sends.extends_journal (told : Sends control base sendings w) :
    base.journal <:+ w.journal :=
  ⟨_, told.reaches.course.turns.journal_eq.symm⟩

end Supervisor
