import Supervisor.Proofs.Journal.Turn
import Supervisor.Proofs.Recycling.Links

/-!
# A recycled proxy is like a new one

When the pool hands out a proxy that was used before, nothing that is done with it from then on
tells it from a new one, apart from the time of its creation and from its pings, which are as many
places later as earlier users had opened pings (`World.recycled_like_new`). What these still do with
the pings that they hold changes nothing.

Two runs go side by side: one from the world in which the proxy was handed out, and one from the
same world with a new proxy in its place. `Abreast` says that they do the same, also while a frame
is under way, and that in the first earlier users may do with their pings what they like.
-/

set_option autoImplicit false
set_option relaxedAutoImplicit false

namespace Supervisor

variable {σ : Type}

/-! ### Two runs side by side -/

/-- Runs lead from `u` to `w` and from `u'` to `w'` that do the same, except that earlier users act
in the first one. Their links answer alike and do the same while they have a frame. -/
inductive Abreast (control : ProcessControl σ) (alike : σ → σ → Prop) (o : Handle → Nat)
    (past : List Event) : World σ → World σ → World σ → World σ → Prop
  | start (u u' : World σ) : Abreast control alike o past u u' u u'
  | perform {u u' w w' : World σ} (runs : Abreast control alike o past u u' w w')
      {op op' : Operation} (echoes : op.Echoes o op')
      (t t' : Link → Bytes → World σ → Except IoFault Unit × World σ)
      (orderly : (Host.mk control t).Orderly)
      (answers : ∀ {d d' : Dispatch} {v v' : World σ}, d.Echoes (o d.owner) d' →
        v.Twin alike o past v' → (t d.link d.frame (v.note (.offered d))).1 =
          (t' d'.link d'.frame (v'.note (.offered d'))).1)
      (during : ∀ {d d' : Dispatch} {v v' : World σ}, d.Echoes (o d.owner) d' →
        v.Twin alike o past v' → Abreast control alike o past (v.note (.offered d))
          (v'.note (.offered d')) (t d.link d.frame (v.note (.offered d))).2
          (t' d'.link d'.frame (v'.note (.offered d'))).2) :
      Abreast control alike o past u u' (w.perform ⟨control, t⟩ op).2
        (w'.perform ⟨control, t'⟩ op').2
  /-- An earlier user does something with a ping. -/
  | stale {u u' w w' : World σ} (runs : Abreast control alike o past u u' w w') {h : Handle}
      {e : Edit} (stale : e.Stale (o h)) : Abreast control alike o past u u' (w.edit h e).2 w'
  /-- An earlier call of `verifyAlive` ends. -/
  | abandon {u u' w w' : World σ} (runs : Abreast control alike o past u u' w w') {h : Handle}
      {ping : Ping} (early : ping.serial < o h) :
      Abreast control alike o past u u' (w.modify h (Proxy.dropPing ping)) w'
  | change {u u' w w' : World σ} (runs : Abreast control alike o past u u' w w')
      {environment environment' : σ} (same : alike environment environment') :
      Abreast control alike o past u u' { w with environment := environment }
        { w' with environment := environment' }
  | remark {u u' w w' : World σ} (runs : Abreast control alike o past u u' w w')
      (outcome : Except Fault Unit) :
      Abreast control alike o past u u' (w.note (.noted outcome)) (w'.note (.noted outcome))

/-- The links answer frames that echo each other alike, and meanwhile do the same. -/
structure InStep (control : ProcessControl σ) (alike : σ → σ → Prop) (o : Handle → Nat)
    (past : List Event) (t t' : Link → Bytes → World σ → Except IoFault Unit × World σ) : Prop where
  orderly : (Host.mk control t).Orderly
  answers : ∀ {d d' : Dispatch} {v v' : World σ}, d.Echoes (o d.owner) d' →
    v.Twin alike o past v' → (t d.link d.frame (v.note (.offered d))).1 =
      (t' d'.link d'.frame (v'.note (.offered d'))).1
  during : ∀ {d d' : Dispatch} {v v' : World σ}, d.Echoes (o d.owner) d' →
    v.Twin alike o past v' → Abreast control alike o past (v.note (.offered d))
      (v'.note (.offered d')) (t d.link d.frame (v.note (.offered d))).2
      (t' d'.link d'.frame (v'.note (.offered d'))).2

variable {control : ProcessControl σ} {alike : σ → σ → Prop} {o : Handle → Nat}
  {past : List Event} {u u' w w' : World σ}

namespace Abreast

theorem next (runs : Abreast control alike o past u u' w w')
    {t t' : Link → Bytes → World σ → Except IoFault Unit × World σ}
    (inStep : InStep control alike o past t t') {op op' : Operation} (echoes : op.Echoes o op') :
    Abreast control alike o past u u' (w.perform ⟨control, t⟩ op).2
      (w'.perform ⟨control, t'⟩ op').2 :=
  runs.perform echoes t t' inStep.orderly inStep.answers inStep.during

theorem further (runs : Abreast control alike o past u u' w w') : u.Further w := by
  induction runs with
  | start u u' => exact .refl u
  | @perform _ _ w _ _ op _ _ t _ orderly _ _ ih _ =>
    exact ih.trans (.of_course (w.course_perform ⟨control, t⟩ (orderly.gentleFrom w) op))
  | @stale _ _ w _ _ h e _ ih =>
    have last : Course control w (w.edit h e).2 := .edit .start h e
    exact ih.trans (.of_course last)
  | @abandon _ _ w _ _ h ping _ ih =>
    refine ih.trans fun k known ↦ ⟨known, Nat.le_of_eq ?_⟩
    by_cases same : k = h
    · subst same
      rw [World.proxy_modify_self]
      rfl
    · rw [World.proxy_modify_of_ne w _ same]
  | change _ _ ih => exact ih
  | remark _ _ ih => exact ih

/-- Runs that are abreast lead from twins to twins. -/
theorem twin (runs : Abreast control alike o past u u' w w') (respects : control.Respects alike)
    (twin : u.Twin alike o past u') (few : w.Few o) : w.Twin alike o past w' := by
  induction runs with
  | start => exact twin
  | @perform _ _ w _ runs op _ echoes t t' orderly answers _ ih during =>
    have last := World.Further.of_course
      (w.course_perform ⟨control, t⟩ (orderly.gentleFrom w) op)
    have before := ih twin (few.earlier twin runs.further last)
    -- What goes on while a frame is under way are runs abreast themselves.
    refine (before.perform respects ⟨orderly, fun echoes after few ↦ ?_⟩ echoes few).2
    exact ⟨answers echoes after, during echoes after (after.note (.offered echoes)) few⟩
  | @stale _ _ w _ runs h e stale ih =>
    have last : Course control w (w.edit h e).2 := .edit .start h e
    have before := few.earlier twin runs.further (.of_course last)
    exact (ih twin before).stale stale (before h)
  | abandon _ early ih =>
    have before := few.of_modify rfl
    exact (ih twin before).abandon early (before _)
  | change _ same ih => exact (ih twin few).change same
  | remark _ outcome ih => exact (ih twin few).enter (.noted outcome) trivial

end Abreast

theorem InStep.attuned {t t' : Link → Bytes → World σ → Except IoFault Unit × World σ}
    (inStep : InStep control alike o past t t') (respects : control.Respects alike) :
    World.Attuned control alike o past t t' := by
  refine ⟨inStep.orderly, fun echoes after few ↦ ⟨inStep.answers echoes after, ?_⟩⟩
  exact (inStep.during echoes after).twin respects (after.note (.offered echoes)) few

theorem InStep.idle : InStep control alike o past (fun _ _ v ↦ (.ok (), v))
    (fun _ _ v ↦ (.ok (), v)) :=
  ⟨fun _ _ v ↦ .refl v, fun _ _ ↦ rfl, fun _ _ ↦ .start _ _⟩

theorem Abreast.edit (runs : Abreast control alike o past u u' w w') {h : Handle} {e e' : Edit}
    (echoes : e.Echoes (o h) e') :
    Abreast control alike o past u u' (w.edit h e).2 (w'.edit h e').2 :=
  runs.next .idle (.edit echoes)

/-! ### The proxy that was handed out and a new one -/

namespace World

/-- The world with a new proxy in place of `h`, under the same settings and id. -/
def remade (h : Handle) (createdAt : Calendar.Timestamp) (v : World σ) : World σ :=
  v.put h ((Proxy.new (v.proxy h).settings createdAt).modify fun s ↦
    { s with id := (v.session h).id })

/-- Pings of `h` are as many places later as it has opened already. -/
def offset (h : Handle) (v : World σ) (k : Handle) : Nat :=
  if k = h then (v.proxy h).opened else 0

variable {h : Handle} {v : World σ}

theorem blank_of_acquire (acquired : w.acquire = (.ok h, v)) :
    v.Has h ∧ ∃ cleared, (v.proxy h).session =
      { Session.new (v.proxy h).settings cleared with id := (v.session h).id } := by
  unfold acquire at acquired
  dsimp only at acquired
  split at acquired
  next below =>
    cases acquired
    refine ⟨?_, w.today, ?_⟩
    · show _ < (w.inUse.set _ true).length
      rwa [List.length_set]
    · rw [session, proxy_reuse_self]
      rfl
  split at acquired
  · cases acquired
  next full _ =>
    have first : w.inUse.findIdx (!·) = w.inUse.length :=
      Nat.le_antisymm List.findIdx_le_length (Nat.le_of_not_lt full)
    rw [first] at acquired
    cases acquired
    refine ⟨?_, w.today, ?_⟩
    · show _ < (w.inUse ++ [true]).length
      simp
    · rw [session, proxy_grow_self]
      rfl

theorem twin_remade (sound : ∀ k, (v.proxy k).Sound) (known : v.Has h)
    {cleared : Calendar.Timestamp}
    (blank : (v.proxy h).session =
      { Session.new (v.proxy h).settings cleared with id := (v.session h).id })
    (createdAt : Calendar.Timestamp) (same : alike v.environment v.environment) :
    v.Twin alike (offset h v) v.journal (v.remade h createdAt) where
  proxies k := by
    by_cases is : k = h
    · subst is
      rw [remade, proxy_put_self, offset, if_pos rfl]
      exact .of_reset (sound k) createdAt cleared _ blank
    · rw [remade, proxy_put_of_ne v _ is, offset, if_neg is]
      exact .refl (sound k)
  inUse := rfl
  environment := same
  now := rfl
  today := rfl
  settings := rfl
  unmade k missing := if_neg fun is ↦ missing (by rwa [is])
  journal := ⟨[], [], rfl, rfl, .nil⟩

theorem few_offset {x : World σ} (few : (x.proxy h).opened ≤ 2 ^ 64) : x.Few (offset h v) := by
  intro k used
  by_cases is : k = h
  · subst is
    exact few
  · rw [offset, if_neg is] at used
    exact absurd used (Nat.lt_irrefl 0)

/-- From where a proxy of the pool is handed out, whatever was done with it before, everything goes
on as with a new proxy in its place: while no id recurs, worlds stay twins, operations are answered
alike, and what is done with pings of earlier users does not show. -/
theorem recycled_like_new (respects : control.Respects alike) (arises : w.Arises control)
    (acquired : w.acquire = (.ok h, v)) (same : alike v.environment v.environment)
    (createdAt : Calendar.Timestamp) :
    v.Twin alike (offset h v) v.journal (v.remade h createdAt) ∧
      ∀ {u u' x x' : World σ}, u.Twin alike (offset h v) v.journal u' →
        Abreast control alike (offset h v) v.journal u u' x x' → (x.proxy h).opened ≤ 2 ^ 64 →
        x.Twin alike (offset h v) v.journal x' ∧
        (∀ t t', InStep control alike (offset h v) v.journal t t' →
          ∀ op op', op.Echoes (offset h v) op' →
            ((x.perform ⟨control, t⟩ op).2.proxy h).opened ≤ 2 ^ 64 →
            (x.perform ⟨control, t⟩ op).1 =
              (x'.perform ⟨control, t'⟩ op').1.later (op.offset (offset h v))) ∧
        (∀ e, e.Stale (v.proxy h).opened →
          (x.edit h e).2.session h = x.session h ∧ (x.edit h e).1 ≠ .flag true) ∧
        ∀ ping : Ping, ping.serial < (v.proxy h).opened →
          (x.modify h (Proxy.dropPing ping)).session h = x.session h := by
  have later : v.Arises control := by
    have course := arises.later (.acquire .start)
    rwa [acquired] at course
  obtain ⟨known, cleared, blank⟩ := blank_of_acquire acquired
  have begun := twin_remade later.sound known blank createdAt same
  refine ⟨begun, fun {u u' x x'} twins runs few ↦ ?_⟩
  have after := runs.twin respects twins (few_offset few)
  have renewed := after.proxies h
  rw [offset, if_pos rfl] at renewed
  refine ⟨after, fun t t' inStep op op' echoes few ↦ ?_, fun e stale ↦ ?_, fun ping early ↦ ?_⟩
  · exact (after.perform respects (inStep.attuned respects) echoes (few_offset few)).1
  · obtain ⟨session, answer, -⟩ := renewed.stale (fun _ ↦ few) stale
    exact ⟨(congrArg Proxy.session (proxy_edit_self x h e)).trans session, answer⟩
  · rw [World.session, proxy_modify_self]
    exact (renewed.abandon (fun _ ↦ few) early).1

/-- A link to a worker that replies to every ping at once; the newest event is its frame. -/
def replying (_ : Link) (_ : Bytes) (w : World σ) : Except IoFault Unit × World σ :=
  match w.journal.head? with
  | some (.offered ⟨h, _, .ping id, _, _⟩) => (.ok (), (w.edit h (.deliver id)).2)
  | _ => (.ok (), w)

theorem inStep_replying : InStep control alike o past replying replying where
  orderly link frame w := by
    show Reaches control w (w.replying link frame).2
    unfold replying
    split
    next h _ id _ _ _ =>
      exact (Reaches.refl w).perform (.edit h (.deliver id)) (fun _ _ v ↦ (.ok (), v))
        fun _ _ v ↦ .refl v
    · exact .refl w
  answers := by
    intro d d' v v' _ _
    unfold replying
    split <;> split <;> rfl
  during := by
    rintro ⟨h, link, m, stream, frame⟩ ⟨h', link', m', stream', frame'⟩ v v' echoes -
    obtain ⟨owner, -, -, message, -, -⟩ := echoes
    dsimp only at owner message
    subst owner message
    cases m' with
    | ping id => exact (Abreast.start _ _).edit (.deliver id)
    | _ => exact .start _ _

/-- A ping that was never answered is left over from the first session of a proxy. Its second
session has a ping answered as that of a new proxy is. -/
theorem answered_in_second_session :
    let h := Handle.pooled 0
    let control := ProcessControl.ofNone Unit
    let first := (start Settings.standard () ⟨0⟩ Calendar.Timestamp.epoch).acquire.2
    let w := ((first.edit h .openPing).2.release 0).2
    let v := w.acquire.2
    let ready (u : World Unit) :=
      ((u.edit h (.setLink (some ⟨0, "worker"⟩))).2.edit h (.setValid true)).2
    let x := ready v
    let x' := ready (v.remade h Calendar.Timestamp.epoch)
    let op := Operation.verifyAlive h (.ofSeconds 1)
    w.Arises control ∧ w.acquire = (.ok h, v) ∧ (v.proxy h).opened = 1 ∧
      Abreast control Eq (offset h v) v.journal v (v.remade h Calendar.Timestamp.epoch) x x' ∧
      (x.perform ⟨control, replying⟩ op).1 = .outcome (.ok ()) ∧
      (x'.perform ⟨control, replying⟩ op).1 = .outcome (.ok ()) ∧
      (x.edit h (.dropPing ⟨0⟩)).2.session h = x.session h ∧
      (x.edit h (.deliver 1)).1 ≠ .flag true := by
  intro h control first w v ready x x' op
  have arises : w.Arises control :=
    ((reachable_start control _ _ _ _).arises).later
      (.release (.edit (.acquire .start) h .openPing) 0)
  have acquired : w.acquire = (.ok h, v) := rfl
  have respects : control.Respects Eq := .eq control
  have runs : Abreast control Eq (offset h v) v.journal v
      (v.remade h Calendar.Timestamp.epoch) x x' :=
    ((Abreast.start _ _).edit (.same (e := .setLink (some ⟨0, "worker"⟩)) trivial)).edit
      (.same (e := .setValid true) trivial)
  have few : (x.proxy h).opened ≤ 2 ^ 64 := by decide
  obtain ⟨begun, along⟩ :=
    recycled_like_new respects arises acquired rfl Calendar.Timestamp.epoch
  obtain ⟨-, answers, stale, -⟩ := along begun runs few
  have answer := answers replying replying inStep_replying op op (.same trivial) (by decide)
  have alive : (x.perform ⟨control, replying⟩ op).1 = .outcome (.ok ()) := by decide
  have early : (⟨0⟩ : Ping).serial < (v.proxy h).opened := by decide
  refine ⟨arises, acquired, rfl, runs, alive, ?_, (stale _ (.dropPing early)).1,
    (stale _ (.deliver early)).2⟩
  rw [alive] at answer
  exact answer.symm

end World

end Supervisor
