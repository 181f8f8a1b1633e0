import Supervisor.World.Operation

/-!
# Runs

`Reaches control w w'` says that operations lead from `w` to `w'` while processes answer as
`control` does. The links are not fixed: each operation may come with links of its own, and while
one of its frames is taken, anything may happen that itself is a run. A derivation nests such runs
to a finite depth, which is what makes an induction over runs an induction over operations at every
depth.

Between two operations the environment may change in any way.
-/

set_option autoImplicit false
set_option relaxedAutoImplicit false

namespace Supervisor

inductive Reaches {σ : Type} (control : ProcessControl σ) : World σ → World σ → Prop
  | refl (w : World σ) : Reaches control w w
  | perform {w w' : World σ} (reached : Reaches control w w') (op : Operation)
      (transmit : Link → Bytes → World σ → Except IoFault Unit × World σ)
      (during : ∀ link frame v, Reaches control v (transmit link frame v).2) :
      Reaches control w (w'.perform ⟨control, transmit⟩ op).2
  | change {w w' : World σ} (reached : Reaches control w w') (environment : σ) :
      Reaches control w { w' with environment := environment }
  | remark {w w' : World σ} (reached : Reaches control w w') (outcome : Except Fault Unit) :
      Reaches control w (w'.note (.noted outcome))

/-- A host whose links do nothing to a world but operations. -/
def Host.Orderly {σ : Type} (host : Host σ) : Prop :=
  ∀ link frame w, Reaches host.toProcessControl w (host.transmit link frame w).2

/-- Nothing has been done yet: the pool is empty and every proxy is new, each under settings of its
own. -/
def World.Untouched {σ : Type} (w : World σ) : Prop :=
  w.inUse = [] ∧ w.journal = [] ∧ ∀ h, ∃ settings createdAt, w.proxy h = Proxy.new settings createdAt

/-- Some run from a world in which nothing has been done leads here. -/
def World.Reachable {σ : Type} (control : ProcessControl σ) (w : World σ) : Prop :=
  ∃ origin : World σ, origin.Untouched ∧ Reaches control origin w

namespace Reaches

variable {σ : Type} {control : ProcessControl σ}

theorem trans {u v w : World σ} (first : Reaches control u v) (second : Reaches control v w) :
    Reaches control u w := by
  induction second with
  | refl => exact first
  | perform _ op transmit during ih _ => exact (ih first).perform op transmit during
  | change _ environment ih => exact (ih first).change environment
  | remark _ outcome ih => exact (ih first).remark outcome

/-- One operation under an orderly host. -/
theorem of_perform {host : Host σ} (orderly : host.Orderly) (w : World σ) (op : Operation) :
    Reaches host.toProcessControl w (w.perform host op).2 :=
  (Reaches.refl w).perform op host.transmit orderly

end Reaches

namespace World

variable {σ : Type}

theorem untouched_start (settings : Settings) (environment : σ) (now : Instant)
    (today : Calendar.Timestamp) : (start settings environment now today).Untouched :=
  ⟨rfl, rfl, fun _ ↦ ⟨settings, today, rfl⟩⟩

theorem reachable_start (control : ProcessControl σ) (settings : Settings) (environment : σ)
    (now : Instant) (today : Calendar.Timestamp) :
    (start settings environment now today).Reachable control :=
  ⟨_, untouched_start settings environment now today, .refl _⟩

theorem Reachable.trans {control : ProcessControl σ} {w w' : World σ} (reachable : w.Reachable control)
    (run : Reaches control w w') : w'.Reachable control := by
  obtain ⟨origin, untouched, first⟩ := reachable
  exact ⟨origin, untouched, first.trans run⟩

/-- Operations one after the other. -/
def performAll (host : Host σ) (ops : List Operation) (w : World σ) : World σ :=
  ops.foldl (fun w op ↦ (w.perform host op).2) w

theorem Reachable.performAll {host : Host σ} {w : World σ} (orderly : host.Orderly)
    (reachable : w.Reachable host.toProcessControl) (ops : List Operation) :
    (w.performAll host ops).Reachable host.toProcessControl := by
  induction ops generalizing w with
  | nil => exact reachable
  | cons op ops ih => exact ih (reachable.trans (Reaches.of_perform orderly w op))

end World

end Supervisor
