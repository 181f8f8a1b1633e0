import Supervisor.World.Run

/-!
# Runs laid flat

A run nests: while one operation has a frame under way, other runs take place, and a sweep goes from
session to session with a frame under way for each. A `Course` is the same run as one chain of
changes that nothing can come between, in the order in which they happened. What each of these
changes preserves is preserved by every run, without a word about links, retries or nesting.

The ping of `verifyAlive` is opened by one such change and given up by another, and no course gives
up a ping of somebody else: that is the side condition of `Course.dropPing`.
-/

set_option autoImplicit false
set_option relaxedAutoImplicit false

namespace Supervisor

/-- The handle stands for a proxy that has been made. -/
def World.Has {σ : Type} (w : World σ) : Handle → Prop
  | .standalone _ => True
  | .pooled slot => slot < w.inUse.length

/-- The event is entered in the journal without anything else being done. -/
def Event.Passing : Event → Prop
  | .offered _ | .accepted _ | .noted _ => True
  | _ => False

/-- The world comes from `base` by changes that nothing can come between. -/
inductive Course {σ : Type} (control : ProcessControl σ) (base : World σ) : World σ → Prop
  | start : Course control base base
  | environment {w : World σ} (course : Course control base w) (environment : σ) :
      Course control base { w with environment := environment }
  | elapse {w : World σ} (course : Course control base w) (span : Duration) :
      Course control base { w with now := w.now.later span }
  | note {w : World σ} (course : Course control base w) (e : Event) (passing : e.Passing) :
      Course control base (w.note e)
  | edit {w : World σ} (course : Course control base w) (h : Handle) (e : Edit) :
      Course control base (w.edit h e).2
  | reset {w : World σ} (course : Course control base w) (h : Handle) :
      Course control base (w.reset h)
  | acquire {w : World σ} (course : Course control base w) : Course control base w.acquire.2
  | release {w : World σ} (course : Course control base w) (id : SessionId) :
      Course control base (w.release id).2
  | moveClient {w : World σ} (course : Course control base w) (source target : SessionId)
      (slot : Nat) : Course control base (w.moveClient source target slot).2
  | terminate {w : World σ} (course : Course control base w) (h : Handle) :
      Course control base (w.terminate control h).2
  | setServer {w : World σ} (course : Course control base w) (h : Handle) (pid : Pid) :
      Course control base (w.setServer control h pid)
  | changePriority {w : World σ} (course : Course control base w) (h : Handle) (delta : Int32) :
      Course control base (w.changePriority control h delta).2
  | setRoundRobin {w : World σ} (course : Course control base w) (h : Handle) (on : Bool) :
      Course control base (w.setRoundRobin control h on).2
  | probe {w : World σ} (course : Course control base w) (h : Handle) (pid : Pid) :
      Course control base (w.call (.probed h pid) (control.alive pid)).2
  | take {w : World σ} (course : Course control base w) (h : Handle) (kind : PayloadKind) :
      Course control base (w.modify h (Proxy.modify (Session.setStaged kind none)))
  | restore {w : World σ} (course : Course control base w) (h : Handle) (kind : PayloadKind)
      (content : Bytes) : Course control base (w.restore h kind content)
  | intend {w : World σ} (course : Course control base w) (h : Handle) (intent : ShutdownIntent) :
      Course control base ((w.modify h (Proxy.modify fun s ↦
        { s with shutdown := true, intent := some intent })).note (.requested h intent))
  | setInflate {w : World σ} (course : Course control base w) (h : Handle) (factor : Int32) :
      Course control base (w.modify h (Proxy.modify fun s ↦ { s with inflate := factor }))
  | openPing {w : World σ} (course : Course control base w) (h : Handle) :
      Course control base (w.put h (w.proxy h).openPing.2)
  | dropPing {w : World σ} (course : Course control base w) (h : Handle) (ping : Ping)
      (own : base.Has h → (base.proxy h).opened ≤ ping.serial ∧ ping.serial < (w.proxy h).opened) :
      Course control base (w.modify h (Proxy.dropPing ping))

/-! ### The journal from some point on -/

namespace World

variable {σ : Type}

/-- The events that were entered in the journal after `base`, newest first. -/
def since (w base : World σ) : List Event :=
  w.journal.take (w.journal.length - base.journal.length)

theorem since_eq {base w : World σ} {news : List Event}
    (journal : w.journal = news ++ base.journal) : w.since base = news := by
  rw [since, journal, List.length_append, Nat.add_sub_cancel, List.take_left]

end World

end Supervisor
