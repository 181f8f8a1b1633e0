import Supervisor.Wire.Bytes

/-!
# Bytes that arrive in pieces

A `Source` holds what successive reads of a stream hand out. `Source.take?` collects an exact number
of bytes over as many reads as it needs; a read that hands out nothing is the end of the stream, and
whatever was collected before it is lost. `take?_of_le` and `take?_of_lt` say that only the bytes
matter and not where the reads cut them.
-/

set_option autoImplicit false
set_option relaxedAutoImplicit false

namespace Supervisor.Wire

structure Source where
  reads : List Bytes
deriving DecidableEq

namespace Source

def ofBytes (bs : Bytes) : Source :=
  ⟨if bs.isEmpty then [] else [bs]⟩

/-- Cuts `bs` into reads of `size` bytes each, the last one perhaps shorter. -/
def cut (size : Nat) (bs : Bytes) (fuel : Nat) (done : List Bytes) : List Bytes :=
  match fuel with
  | 0 => done.reverse
  | fuel + 1 =>
    if bs.isEmpty then done.reverse else cut size (bs.drop size) fuel (bs.take size :: done)

def ofBytesInReads (size : Nat) (bs : Bytes) : Source :=
  ⟨cut (max size 1) bs bs.length []⟩

def bytes (s : Source) : Bytes :=
  s.reads.flatten

def size (s : Source) : Nat :=
  s.bytes.length

/-- No read hands out nothing before the end. -/
def Steady (s : Source) : Prop :=
  ∀ read ∈ s.reads, read ≠ []

def collect (taken : List Bytes) : Nat → List Bytes → Option Bytes × List Bytes
  | 0, reads => (some taken.reverse.flatten, reads)
  | _ + 1, [] => (none, [])
  | count + 1, read :: reads =>
    if read.isEmpty then (none, reads)
    else
      match read.drop (count + 1) with
      | [] => collect (read :: taken) (count + 1 - read.length) reads
      | left => (some (read.take (count + 1) :: taken).reverse.flatten, left :: reads)

/-- The next `count` bytes, if the stream has as many, and what is left of it. -/
def take? (count : Nat) (s : Source) : Option Bytes × Source :=
  let (found, reads) := collect [] count s.reads
  (found, ⟨reads⟩)

theorem collect_eq_some {taken : List Bytes} {count : Nat} {reads : List Bytes} {found : Bytes}
    {rest : List Bytes} (h : collect taken count reads = (some found, rest)) :
    taken.reverse.flatten ++ reads.flatten = found ++ rest.flatten ∧
      found.length = taken.flatten.length + count := by
  induction reads generalizing taken count with
  | nil =>
    cases count with
    | zero =>
      simp only [collect, Prod.mk.injEq, Option.some.injEq] at h
      obtain ⟨rfl, rfl⟩ := h
      simp
    | succ count => simp [collect] at h
  | cons read reads ih =>
    cases count with
    | zero =>
      simp only [collect, Prod.mk.injEq, Option.some.injEq] at h
      obtain ⟨rfl, rfl⟩ := h
      simp
    | succ count =>
      cases hempty : read.isEmpty with
      | true => simp [collect, hempty] at h
      | false =>
        cases hleft : read.drop (count + 1) with
        | nil =>
          have hle : read.length ≤ count + 1 := by simpa using hleft
          simp only [collect, hempty, hleft] at h
          obtain ⟨hbytes, hlength⟩ := ih h
          refine ⟨by simpa using hbytes, ?_⟩
          rw [hlength, List.flatten_cons, List.length_append]
          omega
        | cons b left =>
          simp only [collect, hempty, hleft] at h
          simp only [Bool.false_eq_true, if_false, Prod.mk.injEq, Option.some.injEq] at h
          obtain ⟨rfl, rfl⟩ := h
          have hlt : count + 1 < read.length := by
            have := congrArg List.length hleft
            simp at this
            omega
          constructor
          · have hread : read = read.take (count + 1) ++ b :: left := by
              rw [← hleft, List.take_append_drop]
            simp only [List.reverse_cons, List.flatten_append, List.flatten_cons, List.flatten_nil,
              List.append_nil, List.append_assoc]
            rw [← List.append_assoc (read.take _), ← hread]
          · simp
            omega

/-- The bytes taken are the first ones, and no byte is lost. -/
theorem bytes_of_take? {count : Nat} {s rest : Source} {found : Bytes}
    (h : s.take? count = (some found, rest)) :
    s.bytes = found ++ rest.bytes ∧ found.length = count := by
  simp only [take?, Prod.mk.injEq] at h
  obtain ⟨hfound, rfl⟩ := h
  have := collect_eq_some (Prod.ext hfound rfl : collect [] count s.reads = (some found, _))
  simpa [bytes] using this

theorem size_of_take? {count : Nat} {s rest : Source} {found : Bytes}
    (h : s.take? count = (some found, rest)) : rest.size + count = s.size := by
  obtain ⟨hbytes, hlength⟩ := bytes_of_take? h
  simp only [size, hbytes, List.length_append, hlength]
  omega

theorem collect_of_steady (taken : List Bytes) (count : Nat) (reads : List Bytes)
    (steady : ∀ read ∈ reads, read ≠ []) :
    (reads.flatten.length < count → collect taken count reads = (none, [])) ∧
      (count ≤ reads.flatten.length → ∃ rest, (∀ read ∈ rest, read ≠ []) ∧
        collect taken count reads =
          (some (taken.reverse.flatten ++ reads.flatten.take count), rest) ∧
        rest.flatten = reads.flatten.drop count) := by
  induction reads generalizing taken count with
  | nil =>
    cases count with
    | zero => exact ⟨by simp, fun _ ↦ ⟨[], by simp, by simp [collect], by simp⟩⟩
    | succ count => simp [collect]
  | cons read reads ih =>
    have hread : read ≠ [] := steady read (by simp)
    have hreads : ∀ r ∈ reads, r ≠ [] := fun r hr ↦ steady r (by simp [hr])
    cases count with
    | zero => exact ⟨by simp, fun _ ↦ ⟨read :: reads, steady, by simp [collect], by simp⟩⟩
    | succ count =>
      have hempty : read.isEmpty = false := by simpa using hread
      cases hleft : read.drop (count + 1) with
      | nil =>
        have hle : read.length ≤ count + 1 := by simpa using hleft
        obtain ⟨hshort, hlong⟩ := ih (read :: taken) (count + 1 - read.length) hreads
        simp only [collect, hempty, hleft]
        refine ⟨fun h ↦ ?_, fun h ↦ ?_⟩
        · rw [List.flatten_cons, List.length_append] at h
          exact hshort (by omega)
        · rw [List.flatten_cons, List.length_append] at h
          obtain ⟨rest, hrest, hcollect, hflat⟩ := hlong (by omega)
          refine ⟨rest, hrest, ?_, ?_⟩
          · simp [hcollect, List.take_append, List.take_of_length_le hle]
          · simp [hflat, List.drop_append, hleft]
      | cons b left =>
        have hlt : count + 1 < read.length := by
          have := congrArg List.length hleft
          simp at this
          omega
        simp only [collect, hempty, hleft]
        refine ⟨fun h ↦ ?_, fun _ ↦ ?_⟩
        · rw [List.flatten_cons, List.length_append] at h
          omega
        · refine ⟨(b :: left) :: reads, ?_, ?_, ?_⟩
          · simpa using hreads
          · simp [List.take_append, Nat.sub_eq_zero_of_le (Nat.le_of_lt hlt)]
          · simp [List.drop_append, hleft, Nat.sub_eq_zero_of_le (Nat.le_of_lt hlt)]

theorem take?_of_lt {count : Nat} {s : Source} (steady : s.Steady) (h : s.size < count) :
    s.take? count = (none, ⟨[]⟩) := by
  simp [take?, (collect_of_steady [] count s.reads steady).1 h]

theorem take?_of_le {count : Nat} {s : Source} (steady : s.Steady) (h : count ≤ s.size) :
    ∃ rest : Source, rest.Steady ∧ s.take? count = (some (s.bytes.take count), rest) ∧
      rest.bytes = s.bytes.drop count := by
  obtain ⟨rest, hrest, hcollect, hflat⟩ := (collect_of_steady [] count s.reads steady).2 h
  exact ⟨⟨rest⟩, hrest, by simp [take?, bytes, hcollect], hflat⟩

end Source

end Supervisor.Wire
