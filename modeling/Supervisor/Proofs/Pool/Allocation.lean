import Mathlib.Data.Finset.Sort
import Mathlib.Order.Bounds.Basic
import Supervisor.Proofs.Pool.Ledger

/-!
# The pool hands out the least free id

To whoever acquires and releases, the pool is a set of ids, those that are out, and no more than
that. `World.Allots` says so of each of its operations: the least id that is not out is handed out
as long as there is one below the capacity, an id is taken back or looked up if it is out, and a
refusal changes nothing. `pool_allots` is that this holds in every world that arises, also of
proxies that stale handles have had their way with.
-/

set_option autoImplicit false
set_option relaxedAutoImplicit false

namespace Supervisor.World

open Finset (range)

variable {σ : Type} {w : World σ}

/-- The operations of the pool are those of an allocator with these slots out. The id of a session
is the number of its slot. -/
structure Allots (control : ProcessControl σ) (w : World σ) (out : Finset ℕ) : Prop where
  acquire : out ≠ range w.capacity → ∃ slot v, IsLeast {n | n ∉ out} slot ∧ slot < w.capacity ∧
    w.acquire = (.ok (.pooled slot), v) ∧ outstanding v.journal = insert slot out ∧
    (v.session (.pooled slot)).lifecycle = .created ∧ (v.session (.pooled slot)).id.toInt = slot
  exhausted : out = range w.capacity → w.acquire = (.error (.poolExhausted w.capacity), w)
  release : ∀ slot ∈ out, ∀ id : SessionId, id.toInt = slot →
    (w.release id).1 = .ok () ∧ outstanding (w.release id).2.journal = out.erase slot
  unknown : ∀ id : SessionId, (∀ slot ∈ out, id.toInt ≠ slot) →
    w.release id = (.error (.unknownSession id), w)
  get : ∀ id h, w.get? id = some h ↔ ∃ slot ∈ out, id.toInt = slot ∧ h = .pooled slot
  active : w.active = (out.sort (· ≤ ·)).map .pooled
  separate : ∀ id id' h, w.get? id = some h → w.get? id' = some h → id = id'
  /-- As long as it is not released, the id that was handed out leads to the proxy it came with. -/
  kept : ∀ h v later, w.acquire = (.ok h, v) → Course control v later →
    (∀ slot : ℕ, .released slot ∈ later.since v → (v.session h).id.toInt ≠ slot) →
    later.get? (v.session h).id = some h

/-! ### Looking an id up -/

theorem slotOf?_eq_some_iff {id : SessionId} {slot : ℕ} :
    w.slotOf? id = some slot ↔ id.toInt = slot ∧ w.inUse[slot]? = some true := by
  have sign : 0 ≤ id ↔ 0 ≤ id.toInt := by rw [Int16.le_iff_toInt_le, Int16.toInt_zero]
  unfold slotOf?
  constructor
  · intro found
    split at found
    next held =>
      obtain rfl := Option.some.inj found
      exact ⟨(Int.toNat_of_nonneg (sign.mp held.1)).symm, held.2⟩
    · cases found
  · rintro ⟨same, held⟩
    have place : id.toInt.toNat = slot := by rw [same, Int.toNat_natCast]
    have named : 0 ≤ id := sign.mpr (same ▸ Int.natCast_nonneg slot)
    rw [place, if_pos ⟨named, held⟩]

namespace Ledger

variable {control : ProcessControl σ}

theorem slotOf?_iff (ledger : w.Ledger) {id : SessionId} {slot : ℕ} :
    w.slotOf? id = some slot ↔ id.toInt = slot ∧ slot ∈ outstanding w.journal := by
  rw [slotOf?_eq_some_iff, ledger.out]

theorem get?_iff (ledger : w.Ledger) {id : SessionId} {h : Handle} :
    w.get? id = some h ↔ ∃ slot ∈ outstanding w.journal, id.toInt = slot ∧ h = .pooled slot := by
  rw [get?, Option.map_eq_some_iff]
  constructor
  · rintro ⟨slot, found, rfl⟩
    obtain ⟨same, out⟩ := ledger.slotOf?_iff.mp found
    exact ⟨slot, out, same, rfl⟩
  · rintro ⟨slot, out, same, rfl⟩
    exact ⟨slot, ledger.slotOf?_iff.mpr ⟨same, out⟩, rfl⟩

theorem release_of_out (ledger : w.Ledger) {id : SessionId} {slot : ℕ}
    (out : slot ∈ outstanding w.journal) (same : id.toInt = slot) :
    (w.release id).1 = .ok () ∧
      outstanding (w.release id).2.journal = (outstanding w.journal).erase slot := by
  unfold release
  rw [ledger.slotOf?_iff.mpr ⟨same, out⟩]
  exact ⟨rfl, rfl⟩

theorem release_of_unknown (ledger : w.Ledger) {id : SessionId}
    (unknown : ∀ slot ∈ outstanding w.journal, id.toInt ≠ slot) :
    w.release id = (.error (.unknownSession id), w) := by
  have missing : w.slotOf? id = none := by
    refine Option.eq_none_iff_forall_ne_some.mpr fun slot found ↦ ?_
    obtain ⟨same, out⟩ := ledger.slotOf?_iff.mp found
    exact unknown slot out same
  unfold release
  rw [missing]

/-- Handles of slots that are out are listed slot by slot. -/
theorem active_eq (ledger : w.Ledger) :
    w.active = ((outstanding w.journal).sort (· ≤ ·)).map .pooled := by
  have listed : ((List.range w.inUse.length).filter fun slot ↦ w.inUse[slot]? = some true) =
      (outstanding w.journal).sort (· ≤ ·) := by
    set slots := (List.range w.inUse.length).filter fun slot ↦ w.inUse[slot]? = some true
    have distinct : slots.Nodup := List.nodup_range.filter _
    have ascending : slots.Pairwise (· ≤ ·) := List.pairwise_le_range.filter _
    have same : slots.toFinset = outstanding w.journal := by
      ext slot
      have below (held : w.inUse[slot]? = some true) : slot < w.inUse.length :=
        (List.getElem?_eq_some_iff.mp held).1
      simpa [slots, ledger.out slot] using below
    rw [← same]
    exact ((List.toFinset_sort (· ≤ ·) distinct).mpr ascending).symm
  rw [active, listed]

/-! ### Acquiring -/

/-- What the search for a free slot finds is the least slot that is not out. -/
theorem isLeast (ledger : w.Ledger) :
    IsLeast {n | n ∉ outstanding w.journal} (w.inUse.findIdx (!·)) := by
  constructor
  · show w.inUse.findIdx (!·) ∉ outstanding w.journal
    rw [ledger.out]
    intro held
    obtain ⟨below, taken⟩ := List.getElem?_eq_some_iff.mp held
    have free := List.findIdx_getElem (w := below)
    simp [taken] at free
  · intro n free
    refine Nat.le_of_not_lt fun before ↦ free ?_
    have below : n < w.inUse.length := Nat.lt_of_lt_of_le before List.findIdx_le_length
    have taken := List.not_of_lt_findIdx before
    rw [ledger.out, List.getElem?_eq_getElem below]
    simpa using taken

theorem out_subset (ledger : w.Ledger) : outstanding w.journal ⊆ range w.capacity := by
  intro slot out
  obtain ⟨below, -⟩ := List.getElem?_eq_some_iff.mp ((ledger.out slot).mp out)
  exact Finset.mem_range.mpr (Nat.lt_of_lt_of_le below ledger.room)

/-- A slot is found below the capacity unless all of them are out. -/
theorem findIdx_lt_capacity_iff (ledger : w.Ledger) :
    w.inUse.findIdx (!·) < w.capacity ↔ outstanding w.journal ≠ range w.capacity := by
  constructor
  · intro below all
    exact ledger.isLeast.1 (all ▸ Finset.mem_range.mpr below)
  · intro missing
    by_contra beyond
    refine missing (Finset.Subset.antisymm ledger.out_subset fun n below ↦ ?_)
    by_contra free
    exact beyond (Nat.lt_of_le_of_lt (ledger.isLeast.2 free) (Finset.mem_range.mp below))

theorem acquire_of_room (ledger : w.Ledger) (room : outstanding w.journal ≠ range w.capacity) :
    let slot := w.inUse.findIdx (!·)
    slot < w.capacity ∧ ∃ v, w.acquire = (.ok (.pooled slot), v) ∧
      outstanding v.journal = insert slot (outstanding w.journal) ∧
      (v.session (.pooled slot)).lifecycle = .created ∧
      (v.session (.pooled slot)).id.toInt = slot := by
  intro slot
  have below : slot < w.capacity := ledger.findIdx_lt_capacity_iff.mpr room
  have carried : (Int16.ofNat slot).toInt = slot :=
    Int16.toInt_ofNat_of_lt (Nat.lt_of_lt_of_le below (Nat.min_le_right _ _))
  refine ⟨below, ?_⟩
  by_cases reused : slot < w.inUse.length
  · refine ⟨w.reuse slot, if_pos reused, rfl, ?_⟩
    rw [session, proxy_reuse_self]
    exact ⟨rfl, carried⟩
  · have last : slot = w.inUse.length :=
      Nat.le_antisymm List.findIdx_le_length (Nat.le_of_not_lt reused)
    have grown : w.acquire = (.ok (.pooled slot), w.grow) := by
      unfold acquire
      rw [if_neg reused, if_neg (Nat.not_le.mpr (last ▸ below))]
    rw [last] at carried ⊢
    refine ⟨w.grow, last ▸ grown, rfl, ?_⟩
    rw [session, proxy_grow_self]
    exact ⟨rfl, carried⟩

theorem acquire_of_full (ledger : w.Ledger) (full : outstanding w.journal = range w.capacity) :
    w.acquire = (.error (.poolExhausted w.capacity), w) := by
  have beyond : w.capacity ≤ w.inUse.findIdx (!·) :=
    Nat.le_of_not_lt fun below ↦ ledger.findIdx_lt_capacity_iff.mp below full
  have grown : w.inUse.length = w.capacity :=
    Nat.le_antisymm ledger.room (Nat.le_trans beyond List.findIdx_le_length)
  unfold acquire
  rw [if_neg (Nat.not_lt.mpr (grown ▸ beyond)), if_pos (Nat.le_of_eq grown.symm), grown]

end Ledger

/-- The id that was handed out stays out until it is released. -/
theorem get?_of_acquired {control : ProcessControl σ} (arises : w.Arises control) {h : Handle}
    {v later : World σ} (acquired : w.acquire = (.ok h, v)) (course : Course control v later)
    (kept : ∀ slot : ℕ, .released slot ∈ later.since v → (v.session h).id.toInt ≠ slot) :
    later.get? (v.session h).id = some h := by
  have room : outstanding w.journal ≠ range w.capacity := by
    intro full
    rw [arises.ledger.acquire_of_full full] at acquired
    cases congrArg Prod.fst acquired
  obtain ⟨-, v', handed, out, -, carried⟩ := arises.ledger.acquire_of_room room
  obtain ⟨same, rfl⟩ := Prod.mk.inj (handed.symm.trans acquired)
  obtain rfl := Except.ok.inj same
  have started : Course control w v' := by
    have step : Course control w w.acquire.2 := .acquire .start
    rwa [handed] at step
  refine (arises.later (started.trans course)).ledger.get?_iff.mpr ⟨_, ?_, carried, rfl⟩
  rw [course.turns.journal_eq]
  refine mem_outstanding_append ?_ fun released ↦ kept _ released carried
  rw [out]
  exact Finset.mem_insert_self _ _

/-- The pool of a world that arises hands ids out as an allocator does that always takes the least
one free, below the number of ids there are. -/
theorem pool_allots {control : ProcessControl σ} (arises : w.Arises control) :
    w.Allots control (outstanding w.journal) where
  acquire room := by
    obtain ⟨below, v, acquired, out, created, carried⟩ := arises.ledger.acquire_of_room room
    exact ⟨_, v, arises.ledger.isLeast, below, acquired, out, created, carried⟩
  exhausted := arises.ledger.acquire_of_full
  release _ out _ same := arises.ledger.release_of_out out same
  unknown _ := arises.ledger.release_of_unknown
  get _ _ := arises.ledger.get?_iff
  active := arises.ledger.active_eq
  separate id id' h found found' := by
    obtain ⟨slot, -, same, rfl⟩ := arises.ledger.get?_iff.mp found
    obtain ⟨slot', -, same', shared⟩ := arises.ledger.get?_iff.mp found'
    obtain rfl := Handle.pooled.inj shared
    exact Int16.toInt_inj.mp (same.trans same'.symm)
  kept _ _ _ := get?_of_acquired arises

/-- Both slots of a pool are handed out, the first is taken back, and a stale handle makes its proxy
valid again. The first slot is the one that is free. -/
theorem pool_allots_released :
    let control := ProcessControl.ofNone Unit
    let origin := start { Settings.standard with maxSessions := 2 } () ⟨0⟩ Calendar.Timestamp.epoch
    let full := origin.acquire.2.acquire.2
    let w := ((full.release 0).2.edit (.pooled 0) (.setValid true)).2
    w.Arises control ∧ w.Allots control {1} ∧ IsLeast {n | n ∉ ({1} : Finset ℕ)} 0 ∧
      w.acquire.1 = .ok (.pooled 0) ∧ full.Allots control (range 2) ∧
      full.acquire.1 = .error (.poolExhausted 2) := by
  intro control origin full w
  have begun : origin.Arises control := (reachable_start control _ _ _ _).arises
  have filled : full.Arises control := begun.later (.acquire (.acquire .start))
  have arises : w.Arises control := filled.later (.edit (.release .start 0) _ _)
  have out : outstanding w.journal = {1} := by decide
  have all : outstanding full.journal = range 2 := by decide
  have freed := pool_allots arises
  have taken := pool_allots filled
  rw [out] at freed
  rw [all] at taken
  refine ⟨arises, freed, ⟨by simp, fun _ _ ↦ Nat.zero_le _⟩, rfl, taken, ?_⟩
  rw [taken.exhausted rfl]
  rfl

end Supervisor.World
