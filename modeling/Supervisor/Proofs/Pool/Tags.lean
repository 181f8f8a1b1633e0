import Mathlib.Data.Nat.Find
import Mathlib.Order.Bounds.Basic
import Supervisor.Proofs.Journal.Inscription
import Supervisor.Proofs.Text.Clip
import Supervisor.Script

/-!
# Finding a session by its tag

A tag is kept in at most 64 bytes, and a session is looked for by the tag as it is kept. One who
gives a longer tag and asks for it again finds nobody, since no session keeps so much; up to 64
bytes a tag is kept whole, and then the first slot is found whose tag is kept alike.
`findByTag?_given_iff` says so of every world that arises.
-/

set_option autoImplicit false
set_option relaxedAutoImplicit false

namespace Supervisor

/-- What is kept of a tag is the tag itself when it is short enough, and never more. -/
theorem Label.keep_tag_eq_self_iff {tag : String} (filled : tag ≠ "") :
    Label.tag.keep tag = some tag ↔ tag.utf8ByteSize ≤ 64 := by
  rw [Label.keep_of_limit rfl filled, Option.some_inj]
  constructor
  · intro whole
    exact whole ▸ Text.utf8ByteSize_clip_le 64 tag
  · exact Text.clip_of_le

theorem Label.utf8ByteSize_le_of_keep_tag {text kept : String}
    (keeps : Label.tag.keep text = some kept) : kept.utf8ByteSize ≤ 64 := by
  obtain ⟨-, keeps⟩ := Option.ite_none_left_eq_some.mp keeps
  exact Option.some.inj keeps ▸ Text.utf8ByteSize_clip_le 64 text

namespace World

variable {σ : Type} {control : ProcessControl σ} {w : World σ} {slot : ℕ} {tag : String}

theorem pooled_mem_active_iff : .pooled slot ∈ w.active ↔ w.inUse[slot]? = some true := by
  have below (held : w.inUse[slot]? = some true) : slot < w.inUse.length :=
    (List.getElem?_eq_some_iff.mp held).1
  simpa [active] using below

/-- Slots are looked through from the first one. -/
theorem find?_active_eq_some_iff (p : Handle → Bool) :
    w.active.find? p = some (.pooled slot) ↔
      IsLeast {n | .pooled n ∈ w.active ∧ p (.pooled n) = true} slot := by
  have listed : {n | .pooled n ∈ w.active ∧ p (.pooled n) = true} =
      {n | w.inUse[n]? = some true ∧ p (.pooled n) = true} :=
    Set.ext fun n ↦ and_congr_left' pooled_mem_active_iff
  have below (n : ℕ) (held : w.inUse[n]? = some true) : n < w.inUse.length :=
    (List.getElem?_eq_some_iff.mp held).1
  rw [listed, active, List.find?_map, List.find?_filter, Option.map_eq_some_iff]
  constructor
  · rintro ⟨n, found, same⟩
    obtain rfl := Handle.pooled.inj same
    obtain ⟨holds, -, first⟩ := List.find?_range_eq_some.mp found
    refine ⟨by simpa using holds, fun m member ↦ Nat.le_of_not_lt fun earlier ↦ ?_⟩
    have misses := first m earlier
    simp [member.1, member.2] at misses
  · rintro ⟨⟨held, holds⟩, least⟩
    refine ⟨slot, List.find?_range_eq_some.mpr ⟨by simp [held, holds], ?_, ?_⟩, rfl⟩
    · exact List.mem_range.mpr (below slot held)
    · intro m earlier
      have misses : ¬ (w.inUse[m]? = some true ∧ p (.pooled m) = true) :=
        fun member ↦ Nat.not_le_of_lt earlier (least member)
      simpa only [decide_eq_true_eq, Bool.not_eq_true', decide_eq_false_iff_not,
        Function.comp_apply] using misses

/-- The sessions handed out, by slot, whose tag was given last as a text of which the same is kept
as of `tag`. -/
def TaggedAlike (w : World σ) (tag : String) : Set ℕ :=
  {slot | .pooled slot ∈ w.active ∧ ∃ text,
    lastLabel? (.pooled slot) .tag w.journal = some text ∧ Label.tag.keep text = Label.tag.keep tag}

theorem Arises.tag_eq_some_iff (arises : w.Arises control) (h : Handle) :
    (w.session h).tag = some tag ↔
      ∃ text, lastLabel? h .tag w.journal = some text ∧ Label.tag.keep text = some tag := by
  rw [← Option.bind_eq_some_iff, ← arises.label_session h .tag]
  rfl

theorem findByTag?_of_le (arises : w.Arises control) (filled : tag ≠ "")
    (fits : tag.utf8ByteSize ≤ 64) :
    w.findByTag? tag = some (.pooled slot) ↔ IsLeast (w.TaggedAlike tag) slot := by
  have whole := (Label.keep_tag_eq_self_iff filled).mpr fits
  have alike : {n | .pooled n ∈ w.active ∧ decide ((w.session (.pooled n)).tag = some tag) = true} =
      w.TaggedAlike tag := by
    ext n
    rw [Set.mem_ofPred_eq, decide_eq_true_eq, arises.tag_eq_some_iff, TaggedAlike, whole,
      Set.mem_ofPred_eq]
  rw [findByTag?, find?_active_eq_some_iff, alike]

theorem findByTag?_of_lt (arises : w.Arises control) (long : 64 < tag.utf8ByteSize) :
    w.findByTag? tag = none := by
  refine List.find?_eq_none.mpr fun h _ carries ↦ ?_
  rw [decide_eq_true_eq, arises.tag_eq_some_iff] at carries
  obtain ⟨text, -, kept⟩ := carries
  exact Nat.not_le_of_lt long (Label.utf8ByteSize_le_of_keep_tag kept)

/-- Who gives a session a tag finds by it the first session whose tag is kept alike exactly if the
tag has no more than 64 bytes. -/
theorem findByTag?_given_iff (arises : w.Arises control) (held : .pooled slot ∈ w.active)
    (filled : tag ≠ "") :
    let v := (w.edit (.pooled slot) (.setLabel .tag tag)).2
    (∃ n, v.findByTag? tag = some (.pooled n) ∧ IsLeast (v.TaggedAlike tag) n) ↔
      tag.utf8ByteSize ≤ 64 := by
  intro v
  have later : v.Arises control := arises.later (.edit .start _ _)
  constructor
  · rintro ⟨n, found, -⟩
    by_contra long
    rw [findByTag?_of_lt later (Nat.lt_of_not_le long)] at found
    cases found
  · intro fits
    have given : slot ∈ v.TaggedAlike tag := by
      refine ⟨held, tag, ?_, rfl⟩
      show (lifetime _ (.edited (.pooled slot) (.setLabel .tag tag) :: w.journal)).findSome? _ = _
      rw [lifetime_cons (by simp), List.findSome?_cons, Event.label?, if_pos ⟨rfl, rfl⟩]
    classical
    have least : IsLeast (v.TaggedAlike tag) (Nat.find ⟨slot, given⟩) :=
      ⟨Nat.find_spec _, fun _ member ↦ Nat.find_min' _ member⟩
    exact ⟨_, (findByTag?_of_le later filled fits).mpr least, least⟩

/-- A session after which another one, with a tag too long to be kept whole, comes to carry the
same. -/
theorem findByTag?_given_alike :
    let tag := String.ofList (List.replicate 32 'é')
    let w := (start Settings.standard ({} : Script) ⟨0⟩ Calendar.Timestamp.epoch).performAll
      (Script.host Script.control)
      [.acquire, .acquire, .edit (.pooled 0) (.setLabel .tag (tag ++ "é"))]
    let v := (w.edit (.pooled 1) (.setLabel .tag tag)).2
    w.Arises Script.control ∧ .pooled 1 ∈ w.active ∧ tag ≠ "" ∧
      ∃ n, v.findByTag? tag = some (.pooled n) ∧ IsLeast (v.TaggedAlike tag) n := by
  intro tag w v
  have arises : w.Arises Script.control := Reachable.arises <|
    (reachable_start Script.control _ _ _ _).performAll (Script.host_orderly Script.control) _
  have fits : tag.utf8ByteSize ≤ 64 := by
    rw [Text.utf8ByteSize_ofList]
    decide
  exact ⟨arises, by decide, by decide,
    (findByTag?_given_iff arises (by decide) (by decide)).mpr fits⟩

/-- With a tag of 65 bytes the session that was given it is not found. -/
theorem findByTag?_given_long :
    let tag := String.ofList (List.replicate 65 't')
    let w := (start Settings.standard ({} : Script) ⟨0⟩ Calendar.Timestamp.epoch).performAll
      (Script.host Script.control) [.acquire]
    let v := (w.edit (.pooled 0) (.setLabel .tag tag)).2
    w.Reachable Script.control ∧ .pooled 0 ∈ w.active ∧ tag ≠ "" ∧
      0 ∈ v.TaggedAlike tag ∧ v.findByTag? tag = none := by
  intro tag w v
  have reachable : w.Reachable Script.control :=
    (reachable_start Script.control _ _ _ _).performAll (Script.host_orderly Script.control) _
  have long : 64 < tag.utf8ByteSize := by
    rw [Text.utf8ByteSize_ofList]
    decide
  have given : 0 ∈ v.TaggedAlike tag := ⟨by decide, tag, rfl, rfl⟩
  exact ⟨reachable, by decide, by decide, given,
    findByTag?_of_lt (reachable.arises.later (.edit .start _ _)) long⟩

end World

end Supervisor
