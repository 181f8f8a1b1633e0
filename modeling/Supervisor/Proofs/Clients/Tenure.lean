import Supervisor.Proofs.Clients.Change

/-!
# A client stays seated

Whatever is done to any session, a client who sits at an index of one session sits there until that
index is freed, the client's connection goes, the client is moved away, or the session starts as new
(`World.ClientRun.seated`). Everything else that may happen leaves the seats of all sessions as they
are, or changes other seats only, so that every course is such a run (`Course.clientRun`).
`World.seats_map` puts this together with what each operation does to the map.
-/

set_option autoImplicit false
set_option relaxedAutoImplicit false

namespace Supervisor

variable {σ : Type} {control : ProcessControl σ} {u v w w' : World σ} {h k : Handle}

namespace World

/-- Everyone sits where they sat. -/
def SameSeats (w w' : World σ) : Prop :=
  ∀ h, w'.seats h = w.seats h

/-! ### Who leaves -/

/-- One step takes the client away from the index. -/
inductive Vacates (u : World σ) (h : Handle) (i : Nat) (client : Client) : World σ → Prop
  | detach : Vacates u h i client (u.edit h (.detach i)).2
  | detachConnection : Vacates u h i client (u.edit h (.detachConnection client.connection)).2
  | move {source target : SessionId} {index : Nat} {taker : Handle}
      (moves : u.Moves source target i index (u.moveClient source target i).2 h taker client) :
      Vacates u h i client (u.moveClient source target i).2
  | reset : Vacates u h i client (u.reset h)
  | acquire (handed : u.acquire.1 = .ok h) : Vacates u h i client u.acquire.2
  | release {id : SessionId} (held : u.get? id = some h) : Vacates u h i client (u.release id).2

variable {i : Nat} {client : Client}

/-- A client who sits keeps the seat or loses it by this step. -/
def Keeps (v w : World σ) (h : Handle) (i : Nat) (client : Client) : Prop :=
  v.seats h i = some client → w.seats h i = some client ∨ v.Vacates h i client w

theorem KeepsSlots.keeps (kept : v.KeepsSlots h w) : v.Keeps w h i client :=
  fun sat ↦ .inl ((congrFun (seats_of_clients kept.clients) i).trans sat)

theorem SameSeats.keeps (same : v.SameSeats w) : v.Keeps w h i client :=
  fun sat ↦ .inl (by rw [same h, sat])

theorem keeps_edit (k : Handle) (e : Edit) : v.Keeps (v.edit k e).2 h i client := by
  intro sat
  by_cases same : h = k
  · subst same
    cases e with
    | reserveSlot => exact .inl (by rw [seats_reserve, sat])
    | attach other =>
      have ne : i ≠ (v.session h).clients.firstFree := by
        rintro rfl
        have free : v.seats h _ = none := isLeast_firstFree.1
        rw [sat] at free
        cases free
      exact .inl (by rw [seats_attach, Function.update_of_ne ne, sat])
    | detach freed =>
      by_cases here : i = freed
      · subst here
        exact .inr .detach
      · exact .inl (by rw [seats_detach, Function.update_of_ne here, sat])
    | detachConnection connection =>
      by_cases here : client.connection = connection
      · subst here
        exact .inr .detachConnection
      · refine .inl ?_
        rw [seats_detachConnection, sat]
        exact if_neg (by simpa [Client.belongsTo] using here)
    | _ => exact KeepsSlots.keeps (.edit h trivial) sat
  · exact .inl (by rw [seats_edit_of_ne e same, sat])

theorem keeps_reset (k : Handle) : v.Keeps (v.reset k) h i client := by
  intro sat
  by_cases same : h = k
  · subst same
    exact .inr .reset
  · exact .inl (by rw [seats_reset_of_ne same, sat])

theorem keeps_acquire : v.Keeps v.acquire.2 h i client := by
  rcases acquire_cases v h with ⟨-, kept⟩ | ⟨handed, -⟩
  · exact kept.keeps
  · exact fun _ ↦ .inr (.acquire handed)

theorem keeps_release (id : SessionId) : v.Keeps (v.release id).2 h i client := by
  rcases release_cases v h id with ⟨-, kept⟩ | ⟨held, -⟩
  · exact kept.keeps
  · exact fun _ ↦ .inr (.release held)

theorem keeps_moveClient (source target : SessionId) (slot : Nat) :
    v.Keeps (v.moveClient source target slot).2 h i client := by
  intro sat
  rcases moveClient_cases v source target slot with
    ⟨unchanged, -⟩ | ⟨index, giver, taker, other, -, moves⟩
  · exact .inl (by rw [unchanged, sat])
  by_cases gives : h = giver
  · subst gives
    by_cases here : i = slot
    · subst here
      have same : other = client := Option.some.inj (moves.sat.symm.trans sat)
      exact .inr (.move (same ▸ moves))
    · exact .inl (by rw [moves.freed, Function.update_of_ne here, sat])
  by_cases takes : h = taker
  · subst takes
    have ne : i ≠ index := by
      rintro rfl
      have free : v.seats h i = none := moves.least.1
      rw [sat] at free
      cases free
    exact .inl (by rw [moves.seated, Function.update_of_ne ne, sat])
  · exact .inl (by rw [moves.others h gives takes, sat])

/-- A step of a run over any sessions: an edit, a move, a reset, an exchange with the pool, or
something that has nothing to do with seats. -/
inductive ClientStep (w : World σ) : World σ → Prop
  | edit (h : Handle) (e : Edit) : ClientStep w (w.edit h e).2
  | moveClient (source target : SessionId) (slot : Nat) :
      ClientStep w (w.moveClient source target slot).2
  | reset (h : Handle) : ClientStep w (w.reset h)
  | acquire : ClientStep w w.acquire.2
  | release (id : SessionId) : ClientStep w (w.release id).2
  | aside {w' : World σ} (same : w.SameSeats w') : ClientStep w w'

theorem ClientStep.keeps (step : v.ClientStep w) : v.Keeps w h i client := by
  cases step with
  | edit k e => exact keeps_edit k e
  | moveClient source target slot => exact keeps_moveClient source target slot
  | reset k => exact keeps_reset k
  | acquire => exact keeps_acquire
  | release id => exact keeps_release id
  | aside same => exact same.keeps

/-- A run of such steps. -/
abbrev ClientRun : World σ → World σ → Prop :=
  Relation.ReflTransGen ClientStep

/-- A client who sits is found in the same seat after a run, unless some step of the run took the
client away. -/
theorem ClientRun.seated (run : ClientRun w v) (sat : w.seats h i = some client) :
    v.seats h i = some client ∨ ∃ u u', ClientRun w u ∧ u.seats h i = some client ∧
      u.Vacates h i client u' ∧ ClientRun u' v := by
  induction run with
  | refl => exact .inl sat
  | tail run step ih =>
    rcases ih with sits | ⟨u, u', first, sits, left, rest⟩
    · rcases step.keeps sits with still | left
      · exact .inl still
      · exact .inr ⟨_, _, run, sits, left, .refl⟩
    · exact .inr ⟨u, u', first, sits, left, rest.tail step⟩

end World

theorem World.SeatStep.clientStep (step : v.SeatStep w) : v.ClientStep w := by
  cases step with
  | edit k e => exact .edit k e
  | moveClient source target slot => exact .moveClient source target slot
  | reset k => exact .reset k
  | acquire => exact .acquire
  | release id => exact .release id
  | aside kept => exact .aside fun k ↦ World.seats_of_clients (kept k).clients

/-- Whatever happens in a course is such a run. -/
theorem Course.clientRun (course : Course control w v) : World.ClientRun w v :=
  Relation.ReflTransGen.mono (fun _ _ ↦ World.SeatStep.clientStep) _ _ course.seatSteps

/-! ### The map -/

namespace World

/-- The slots of every session are a finite partial map from indices to clients, on which each
operation does what it says, and in which a client stays until taken away. -/
structure SeatMap (w : World σ) : Prop where
  finite : ∀ h, {i | (w.seats h i).isSome}.Finite
  attached : ∀ h, (w.session h).clients.attached = {i | (w.seats h i).isSome}.ncard
  /-- A slot without a connection is the handle of no client. -/
  blank : ∀ control, w.Arises control → ∀ h, ∀ slot ∈ (w.session h).clients,
    slot.connection? = none → slot.stream = 0
  /-- The least free index is given out, and nobody is moved. -/
  reserve : ∀ h, ∃ i, (w.edit h .reserveSlot).1 = .count i ∧ IsLeast (w.vacant h) i ∧
    (w.edit h .reserveSlot).2.seats h = w.seats h
  /-- A client who comes takes the least free index. -/
  attach : ∀ h client, ∃ i, (w.edit h (.attach client)).1 = .count i ∧ IsLeast (w.vacant h) i ∧
    (w.edit h (.attach client)).2.seats h = Function.update (w.seats h) i (some client)
  /-- Who sat at an index that is freed is told, and nobody else leaves. -/
  detach : ∀ h i, (w.edit h (.detach i)).1 = .client (w.seats h i) ∧
    (w.edit h (.detach i)).2.seats h = Function.update (w.seats h) i none
  /-- To free an index at which nobody sits changes nothing. -/
  absent : ∀ h i, w.seats h i = none → (w.edit h (.detach i)).2.session h = w.session h
  /-- The clients of a connection leave, and are counted. -/
  detachConnection : ∀ h connection,
    (w.edit h (.detachConnection connection)).1 =
        .count {i | (w.seats h i).any (·.belongsTo connection)}.ncard ∧
      ∀ i, (w.edit h (.detachConnection connection)).2.seats h i =
        if (w.seats h i).any (·.belongsTo connection) then none else w.seats h i
  /-- What is done to one session leaves the seats of others as they are. -/
  elsewhere : ∀ h k e, k ≠ h → (w.edit h e).2.seats k = w.seats k
  /-- A client is moved to the least free index of the other session, or nothing is changed. -/
  moveClient : ∀ source target slot,
    (w.moveClient source target slot).2 = w ∧
        (source = target ∨ ∃ fault, (w.moveClient source target slot).1 = .error fault) ∨
      ∃ index giver taker client, (w.moveClient source target slot).1 = .ok index ∧
        w.Moves source target slot index (w.moveClient source target slot).2 giver taker client
  reset : ∀ h, (w.reset h).seats h = (fun _ ↦ none) ∧ ∀ k, k ≠ h → (w.reset h).seats k = w.seats k
  /-- Whatever happens in the course of things is a run of the steps `ClientStep` names. -/
  course : ∀ control v, Course control w v → ClientRun w v
  /-- Over any run a client stays at an index until some step takes the client away. -/
  seated : ∀ v, ClientRun w v → ∀ h i client, w.seats h i = some client →
    v.seats h i = some client ∨ ∃ u u', ClientRun w u ∧ u.seats h i = some client ∧
      u.Vacates h i client u' ∧ ClientRun u' v

theorem seats_map (w : World σ) : w.SeatMap where
  finite h := Slots.finite_of_taken (w.session h).clients rfl
  attached h := (w.session h).clients.attached_eq_ncard
  blank _ arises h slot found unconnected :=
    congrArg ClientSlot.stream (arises.tidy h slot found unconnected)
  reserve _ := ⟨_, rfl, isLeast_firstFree, seats_reserve⟩
  attach _ client := ⟨_, rfl, isLeast_firstFree, seats_attach client⟩
  detach h i :=
    have told := congrArg Prod.fst ((w.session h).clients.detach_eq i)
    ⟨congrArg Edit.Answer.client told, seats_detach i⟩
  absent _ _ free := session_detach_of_free free
  detachConnection h connection :=
    ⟨congrArg Edit.Answer.count ((w.session h).clients.fst_detachConnection connection),
      seats_detachConnection connection⟩
  elsewhere _ _ e ne := seats_edit_of_ne e ne
  moveClient := w.moveClient_cases
  reset _ := ⟨seats_reset, fun _ ne ↦ seats_reset_of_ne ne⟩
  course _ _ course := course.clientRun
  seated _ run _ _ _ := run.seated

end World

end Supervisor
