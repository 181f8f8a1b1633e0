import Supervisor.Proofs.Ping.Onward
import Supervisor.Proofs.Sweep.Visits

/-!
# Every run is a course

`Reaches.course` lays a run flat. The links are asked for little: a host is gentle from a world when
its links, handed any world that a course leads to from there, do nothing but continue the course
(`Host.GentleFrom`). That each operation is then a course itself says in passing that no link is
ever handed a world of another kind.

`World.Arises` holds of every world that there is at any moment of any run, also in the middle of
operations.
-/

set_option autoImplicit false
set_option relaxedAutoImplicit false

namespace Supervisor

variable {σ : Type}

section

variable {control : ProcessControl σ} {u v w : World σ}

theorem Course.trans (first : Course control u v) (second : Course control v w) :
    Course control u w := by
  induction second with
  | start => exact first
  | environment _ environment ih => exact ih.environment environment
  | elapse _ span ih => exact ih.elapse span
  | note _ e passing ih => exact ih.note e passing
  | edit _ h e ih => exact ih.edit h e
  | reset _ h ih => exact ih.reset h
  | acquire _ ih => exact ih.acquire
  | release _ id ih => exact ih.release id
  | moveClient _ source target slot ih => exact ih.moveClient source target slot
  | terminate _ h ih => exact ih.terminate h
  | setServer _ h pid ih => exact ih.setServer h pid
  | changePriority _ h delta ih => exact ih.changePriority h delta
  | setRoundRobin _ h on ih => exact ih.setRoundRobin h on
  | probe _ h pid ih => exact ih.probe h pid
  | take _ h kind ih => exact ih.take h kind
  | restore _ h kind content ih => exact ih.restore h kind content
  | intend _ h intent ih => exact ih.intend h intent
  | setInflate _ h factor ih => exact ih.setInflate h factor
  | openPing _ h ih => exact ih.openPing h
  | dropPing _ h ping own ih =>
    refine ih.dropPing h ping fun known ↦ ?_
    obtain ⟨opened, below⟩ := own ((first.life h).has known)
    exact ⟨Nat.le_trans ((first.life h).onward known).opened opened, below⟩

theorem Course.has {h : Handle} (course : Course control u v) (known : u.Has h) : v.Has h :=
  (course.life h).has known

theorem Course.opened_le {h : Handle} (course : Course control u v) (known : u.Has h) :
    (u.proxy h).opened ≤ (v.proxy h).opened :=
  ((course.life h).onward known).opened

end

/-! ### Operations -/

/-- From the world on, the links only continue the course. -/
def Host.GentleFrom (host : Host σ) (w : World σ) : Prop :=
  ∀ link frame v, Course host.toProcessControl w v →
    Course host.toProcessControl v (host.transmit link frame v).2

theorem Host.GentleFrom.later {host : Host σ} {w v : World σ} (gentle : host.GentleFrom w)
    (course : Course host.toProcessControl w v) : host.GentleFrom v :=
  fun link frame u h ↦ gentle link frame u (course.trans h)

namespace World

variable (host : Host σ) (h : Handle) (w : World σ)

theorem course_send (gentle : host.GentleFrom w) (channel : Channel) (m : Message) :
    Course host.toProcessControl w (w.send host h channel m).2 := by
  unfold send
  split
  · exact .start
  next link _ =>
    split
    · exact .start
    next frame _ =>
      have offered : Course host.toProcessControl w
          (w.note (.offered ⟨h, link, m, channel.stream, frame⟩)) :=
        .note .start _ trivial
      have taken := offered.trans (gentle link frame _ offered)
      dsimp only
      split
      next sent =>
        rw [sent] at taken
        exact taken
      next sent =>
        rw [sent] at taken
        exact taken.note _ trivial

theorem course_sendStaged (gentle : host.GentleFrom w) (kind : PayloadKind) :
    Course host.toProcessControl w (w.sendStaged host h kind).2 := by
  unfold sendStaged
  dsimp only
  split
  · exact .start
  next content _ =>
    have taken : Course host.toProcessControl w (if kind = .requirements then w
        else w.modify h (Proxy.modify (Session.setStaged kind none))) := by
      split
      · exact .start
      · exact .take .start h kind
    have sent := taken.trans (course_send host h _ (gentle.later taken) (w.session h).channel
      (.staged kind content))
    split
    next done =>
      rw [done] at sent
      exact sent
    next failed =>
      rw [failed] at sent
      dsimp only
      split
      · exact sent
      · exact sent.restore h kind content

theorem course_requestShutdown (gentle : host.GentleFrom w) (delay : Duration) (enable : Bool) :
    Course host.toProcessControl w (w.requestShutdown host h delay enable).2 := by
  unfold requestShutdown
  dsimp only
  have intended : Course host.toProcessControl w _ := .intend .start h ⟨delay, enable, w.now⟩
  split
  · exact intended
  · exact intended.trans (course_send host h _ (gentle.later intended) _ _)

theorem course_setInflate (gentle : host.GentleFrom w) (factor : Int32) (sendOver : Bool) :
    Course host.toProcessControl w (w.setInflate host h factor sendOver).2 := by
  unfold setInflate
  have kept : Course host.toProcessControl w _ := .setInflate .start h factor
  dsimp only
  split
  · exact kept.trans (course_send host h _ (gentle.later kept) _ _)
  · exact kept

/-- What the result of waiting for a ping is reported as. -/
def outcomeOf (timeout : Duration) : Awaited → Except Fault Unit
  | .answered => .ok ()
  | .timedOut => .error (.timeout timeout)
  | .disconnected => .error .invalid

/-- Collecting a reply adds nothing to giving the ping up. -/
theorem concludePing_eq (ping : Ping) (timeout : Duration) :
    w.concludePing h ping timeout =
      (outcomeOf timeout ((w.proxy h).awaitPing ping).1, w.modify h (Proxy.dropPing ping)) := by
  have given : ((w.proxy h).awaitPing ping).2.dropPing ping = (w.proxy h).dropPing ping := by
    unfold Proxy.awaitPing
    split
    · simp [Proxy.dropPing, Proxy.collect, Proxy.modify]
    split
    · rfl
    · rfl
  unfold concludePing
  simp only [given]
  cases ((w.proxy h).awaitPing ping).1 with
  | answered => rfl
  | timedOut => rfl
  | disconnected => rfl

theorem course_verifyAlive (gentle : host.GentleFrom w) (timeout : Duration) :
    Course host.toProcessControl w (w.verifyAlive host h timeout).2 := by
  unfold verifyAlive
  dsimp only
  split
  · exact .start
  split
  · exact .start
  have opened : Course host.toProcessControl w _ := .openPing .start h
  have sent := course_send host h _ (gentle.later opened) (w.session h).channel
    (.ping (w.proxy h).openPing.1.id)
  -- The ping is the caller's own: opened from here on, and before anything that the link did.
  have dropped := (opened.trans sent).dropPing h (w.proxy h).openPing.1 fun known ↦ by
    have later := sent.opened_le (opened.has known)
    rw [proxy_put_self] at later
    exact ⟨Nat.le_refl _, later⟩
  split
  next failed =>
    rw [failed] at dropped
    exact dropped
  next done =>
    rw [done] at dropped
    rw [concludePing_eq]
    exact dropped

theorem course_lastPing (gentle : host.GentleFrom w) (retries attempt : Nat) :
    Course host.toProcessControl w (w.lastPing host h retries attempt).2 := by
  induction retries generalizing w attempt with
  | zero => exact .start
  | succ retries ih =>
    have pinged := course_verifyAlive host h w gentle w.settings.pingTimeout
    rw [lastPing]
    split
    next again =>
      rw [again] at pinged
      exact pinged.trans (ih _ (gentle.later pinged) _)
    · exact .start

theorem course_judge (attempt : Nat) (outcome : Except Fault Unit) :
    Course host.toProcessControl w (judge host h attempt (outcome, w)).2 := by
  unfold judge
  cases outcome with
  | ok => exact .start
  | error cause =>
    dsimp only
    split
    · exact .start
    · exact .terminate .start h

theorem course_pingWithRetries (gentle : host.GentleFrom w) (retries attempt : Nat) :
    Course host.toProcessControl w (w.pingWithRetries host h retries attempt).2 := by
  have last := course_lastPing host h w gentle retries attempt
  have pinged := course_verifyAlive host h _ (gentle.later last)
    (w.lastPing host h retries attempt).2.settings.pingTimeout
  rw [pingWithRetries_eq]
  exact last.trans (pinged.trans (course_judge host h _ _ _))

theorem course_check (gentle : host.GentleFrom w) :
    Course host.toProcessControl w (w.check host h).2 := by
  unfold check
  dsimp only
  split
  · exact course_pingWithRetries host h w gentle _ 1
  next pid _ =>
    have probed : Course host.toProcessControl w _ := .probe .start h pid
    split
    next gone =>
      rw [gone] at probed
      exact probed.terminate h
    next there =>
      rw [there] at probed
      exact probed.trans (course_pingWithRetries host h _ (gentle.later probed) _ 1)

theorem course_firstPing {v : World σ} (found : w.firstPing? host h = some v) :
    Course host.toProcessControl w v := by
  unfold firstPing? at found
  split at found
  · cases found
    exact .start
  next pid _ =>
    have probed : Course host.toProcessControl w _ := .probe .start h pid
    split at found
    · cases found
    next there =>
      cases found
      rw [there] at probed
      exact probed

theorem course_visits (gentle : host.GentleFrom w) {hs : List Handle} {visit : Handle × World σ}
    (found : visit ∈ w.visits host hs) : Course host.toProcessControl w visit.2 := by
  induction hs generalizing w with
  | nil => exact absurd found List.not_mem_nil
  | cons h hs ih =>
    have checked := course_check host h w gentle
    rw [visits] at found
    split at found
    · rcases List.mem_cons.mp found with rfl | found
      · exact .start
      · exact checked.trans (ih _ (gentle.later checked) found)
    · exact ih w gentle found

theorem course_sweepOver (gentle : host.GentleFrom w) (hs : List Handle) :
    Course host.toProcessControl w (w.sweepOver host hs).2 := by
  induction hs generalizing w with
  | nil => exact .start
  | cons h hs ih =>
    rw [sweepOver]
    split
    · have checked := course_check host h w gentle
      exact checked.trans (ih _ (gentle.later checked))
    · exact ih w gentle

theorem course_terminateAll (control : ProcessControl σ) (hs : List Handle) :
    Course control w (w.terminateAll control hs).2 := by
  induction hs generalizing w with
  | nil => exact .start
  | cons h hs ih => exact (Course.start.terminate h).trans (ih _)

theorem course_runDue (control : ProcessControl σ) (now : Instant) :
    Course control w (w.runDue control now).2 := by
  unfold runDue
  split
  · exact .start
  · exact course_terminateAll w control _

theorem course_perform (gentle : host.GentleFrom w) (op : Operation) :
    Course host.toProcessControl w (w.perform host op).2 := by
  cases op with
  | edit h e => exact .edit .start h e
  | reset h => exact .reset .start h
  | terminate h => exact .terminate .start h
  | setServer h pid => exact .setServer .start h pid
  | changePriority h delta => exact .changePriority .start h delta
  | setRoundRobin h on => exact .setRoundRobin .start h on
  | send h m => exact course_send host h w gentle _ m
  | sendStaged h kind => exact course_sendStaged host h w gentle kind
  | requestShutdown h delay enable => exact course_requestShutdown host h w gentle delay enable
  | setInflate h factor sendOver => exact course_setInflate host h w gentle factor sendOver
  | verifyAlive h timeout => exact course_verifyAlive host h w gentle timeout
  | acquire => exact .acquire .start
  | release id => exact .release .start id
  | moveClient source target slot => exact .moveClient .start source target slot
  | sweep => exact course_sweepOver host w gentle _
  | runDue now => exact course_runDue w host.toProcessControl now
  | elapse span => exact .elapse .start span

end World

/-- A run is a course. -/
theorem Reaches.course {control : ProcessControl σ} {w w' : World σ}
    (run : Reaches control w w') : Course control w w' := by
  induction run with
  | refl => exact .start
  | perform _ op transmit _ first during =>
    exact first.trans (World.course_perform ⟨control, transmit⟩ _
      (fun link frame v _ ↦ during link frame v) op)
  | change _ environment first => exact first.environment environment
  | remark _ outcome first => exact first.note _ trivial

theorem Host.Orderly.gentleFrom {host : Host σ} (orderly : host.Orderly) (w : World σ) :
    host.GentleFrom w :=
  fun link frame v _ ↦ (orderly link frame v).course

/-! ### Worlds that arise -/

/-- Some course leads here from a world in which nothing has been done. -/
def World.Arises (control : ProcessControl σ) (w : World σ) : Prop :=
  ∃ origin : World σ, origin.Untouched ∧ Course control origin w

namespace World

variable {control : ProcessControl σ} {w w' : World σ}

theorem Reachable.arises (reachable : w.Reachable control) : w.Arises control := by
  obtain ⟨origin, untouched, run⟩ := reachable
  exact ⟨origin, untouched, run.course⟩

theorem Arises.later (arises : w.Arises control) (course : Course control w w') :
    w'.Arises control := by
  obtain ⟨origin, untouched, first⟩ := arises
  exact ⟨origin, untouched, first.trans course⟩

theorem Arises.sound (arises : w.Arises control) (h : Handle) : (w.proxy h).Sound := by
  obtain ⟨origin, ⟨-, -, new⟩, course⟩ := arises
  obtain ⟨settings, createdAt, blank⟩ := new h
  refine (course.life h).sound ?_
  rw [blank]
  exact Proxy.sound_new settings createdAt

end World

end Supervisor
