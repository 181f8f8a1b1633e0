import Supervisor.Session.Edit

/-!
# The supervisor's world

A `World` is everything that operations act on: the proxies, which of them the pool has handed out,
the environment of links and processes, the time, and a journal of what was done. A proxy is named
by a `Handle` and stays the same proxy when the pool takes it back and hands it out again.

What happens is entered in the journal when it happens, also while another operation is under way.
The history of a session since some point is therefore the newer part of the journal, and at any
moment the journal so far is what later ones end in.

The registry of proxies answers for every handle: one that nothing has been done to is a new proxy.
`proxy_put_self` and `proxy_put_of_ne` are the laws that the operations are reasoned with.
-/

set_option autoImplicit false
set_option relaxedAutoImplicit false

namespace Supervisor

/-- Names a proxy: one outside the pool, or the one in a slot of the pool. -/
inductive Handle
  | standalone (n : Nat)
  | pooled (slot : Nat)
deriving DecidableEq

/-- A message on its way: whose it is, the link and the stream it goes to, and its frame. -/
structure Dispatch where
  owner : Handle
  link : Link
  message : Message
  stream : StreamId
  frame : Bytes
deriving DecidableEq

inductive Event
  /-- The proxy starts as new. -/
  | fresh (h : Handle)
  | edited (h : Handle) (e : Edit)
  /-- The proxy of a slot is handed out. -/
  | acquired (slot : Nat)
  /-- The proxy of a slot is taken back. -/
  | released (slot : Nat)
  /-- A shutdown is asked for. -/
  | requested (h : Handle) (intent : ShutdownIntent)
  /-- A termination takes effect. -/
  | ended (h : Handle)
  /-- A process is recorded for the worker. -/
  | recorded (h : Handle) (pid : Pid)
  | signalled (h : Handle) (pid : Pid) (signal : Signal)
  | probed (h : Handle) (pid : Pid)
  | priorityRead (h : Handle) (pid : Pid)
  | prioritySet (h : Handle) (pid : Pid) (priority : Int32)
  | scheduleRead (h : Handle) (pid : Pid)
  | scheduleSet (h : Handle) (pid : Pid) (schedule : Schedule)
  /-- A frame is handed to a link. -/
  | offered (d : Dispatch)
  /-- The link has taken the frame. -/
  | accepted (d : Dispatch)
  /-- An observer's note of how an operation went. -/
  | noted (outcome : Except Fault Unit)
deriving DecidableEq

structure Registry where
  /-- What a handle stands for before anything is done to its proxy. -/
  blank : Proxy
  entries : List (Handle × Proxy) := []

namespace Registry

def get (r : Registry) (h : Handle) : Proxy :=
  match r.entries.find? fun entry ↦ entry.1 = h with
  | some entry => entry.2
  | none => r.blank

def put (r : Registry) (h : Handle) (p : Proxy) : Registry :=
  { r with entries := (h, p) :: r.entries.filter fun entry ↦ entry.1 ≠ h }

@[simp] theorem get_put_self (r : Registry) (h : Handle) (p : Proxy) : (r.put h p).get h = p := by
  simp [get, put]

theorem get_put_of_ne (r : Registry) {h other : Handle} (p : Proxy) (ne : other ≠ h) :
    (r.put h p).get other = r.get other := by
  have same (entry : Handle × Proxy) : (entry.1 ≠ h ∧ entry.1 = other) = (entry.1 = other) :=
    propext ⟨And.right, fun found ↦ ⟨found ▸ ne, found⟩⟩
  simp only [get, put, List.find?_cons, decide_eq_false ne.symm, List.find?_filter,
    decide_eq_true_eq, same]

end Registry

structure World (σ : Type) where
  registry : Registry
  /-- For each slot of the pool, whether its proxy is handed out. -/
  inUse : List Bool := []
  environment : σ
  now : Instant
  today : Calendar.Timestamp
  /-- What was done, newest first. -/
  journal : List Event := []

namespace World

variable {σ : Type}

/-- A world before anything has been done, with an empty pool under the given settings. -/
def start (settings : Settings) (environment : σ) (now : Instant) (today : Calendar.Timestamp) :
    World σ where
  registry := { blank := Proxy.new settings today }
  environment := environment
  now := now
  today := today

/-- Settings of the pool. -/
def settings (w : World σ) : Settings :=
  w.registry.blank.settings

def proxy (w : World σ) (h : Handle) : Proxy :=
  w.registry.get h

def session (w : World σ) (h : Handle) : Session :=
  (w.proxy h).session

def put (w : World σ) (h : Handle) (p : Proxy) : World σ :=
  { w with registry := w.registry.put h p }

def modify (w : World σ) (h : Handle) (f : Proxy → Proxy) : World σ :=
  w.put h (f (w.proxy h))

def note (w : World σ) (e : Event) : World σ :=
  { w with journal := e :: w.journal }

/-- Does an edit to one proxy. -/
def edit (h : Handle) (e : Edit) (w : World σ) : Edit.Answer × World σ :=
  let (answer, p) := e.apply (w.proxy h)
  (answer, (w.put h p).note (.edited h e))

/-- Clears a proxy for its next session. -/
def reset (h : Handle) (w : World σ) : World σ :=
  (w.modify h (Proxy.reset w.today)).note (.fresh h)

/-- How often the proxy has started as new. -/
def resets (h : Handle) (w : World σ) : Nat :=
  w.journal.count (.fresh h)

@[simp] theorem proxy_put_self (w : World σ) (h : Handle) (p : Proxy) : (w.put h p).proxy h = p :=
  Registry.get_put_self _ _ _

theorem proxy_put_of_ne (w : World σ) {h other : Handle} (p : Proxy) (ne : other ≠ h) :
    (w.put h p).proxy other = w.proxy other :=
  Registry.get_put_of_ne _ _ ne

@[simp] theorem proxy_note (w : World σ) (e : Event) (h : Handle) :
    (w.note e).proxy h = w.proxy h :=
  rfl

@[simp] theorem journal_put (w : World σ) (h : Handle) (p : Proxy) :
    (w.put h p).journal = w.journal :=
  rfl

@[simp] theorem inUse_put (w : World σ) (h : Handle) (p : Proxy) : (w.put h p).inUse = w.inUse :=
  rfl

@[simp] theorem environment_put (w : World σ) (h : Handle) (p : Proxy) :
    (w.put h p).environment = w.environment :=
  rfl

@[simp] theorem journal_note (w : World σ) (e : Event) : (w.note e).journal = e :: w.journal :=
  rfl

@[simp] theorem inUse_note (w : World σ) (e : Event) : (w.note e).inUse = w.inUse :=
  rfl

@[simp] theorem proxy_modify_self (w : World σ) (h : Handle) (f : Proxy → Proxy) :
    (w.modify h f).proxy h = f (w.proxy h) :=
  proxy_put_self _ _ _

theorem proxy_modify_of_ne (w : World σ) {h other : Handle} (f : Proxy → Proxy)
    (ne : other ≠ h) : (w.modify h f).proxy other = w.proxy other :=
  proxy_put_of_ne _ _ ne

@[simp] theorem journal_modify (w : World σ) (h : Handle) (f : Proxy → Proxy) :
    (w.modify h f).journal = w.journal :=
  rfl

@[simp] theorem inUse_modify (w : World σ) (h : Handle) (f : Proxy → Proxy) :
    (w.modify h f).inUse = w.inUse :=
  rfl

@[simp] theorem proxy_edit_self (w : World σ) (h : Handle) (e : Edit) :
    (w.edit h e).2.proxy h = (e.apply (w.proxy h)).2 :=
  proxy_put_self _ _ _

@[simp] theorem proxy_reset_self (w : World σ) (h : Handle) :
    (w.reset h).proxy h = (w.proxy h).reset w.today :=
  proxy_put_self _ _ _

@[simp] theorem resets_put (w : World σ) (h other : Handle) (p : Proxy) :
    (w.put h p).resets other = w.resets other :=
  rfl

@[simp] theorem resets_modify (w : World σ) (h other : Handle) (f : Proxy → Proxy) :
    (w.modify h f).resets other = w.resets other :=
  rfl

theorem resets_note (w : World σ) (h : Handle) (e : Event) :
    (w.note e).resets h = w.resets h + if e = .fresh h then 1 else 0 := by
  simp only [resets, journal_note, List.count_cons, beq_iff_eq]

@[simp] theorem resets_edit (w : World σ) (h other : Handle) (e : Edit) :
    (w.edit h e).2.resets other = w.resets other :=
  resets_note _ _ _

@[simp] theorem resets_reset (w : World σ) (h : Handle) :
    (w.reset h).resets h = w.resets h + 1 := by
  rw [reset, resets_note, if_pos rfl, resets_modify]

end World

end Supervisor
