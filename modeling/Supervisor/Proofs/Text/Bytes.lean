import Mathlib.Order.Bounds.Basic
import Supervisor.Text.Clip

/-!
# Texts by bytes

In memory a text is a run of bytes, and a slice of it may be out of range or cut a character in two
(`sliceBytes?`). Where it may be cut shows in the byte itself, so that the nearest such place before
some byte is found by stepping back (`Text.boundary?`).
-/

set_option autoImplicit false
set_option relaxedAutoImplicit false

namespace Supervisor

/-- The text from one byte to another, none where the slice is out of range or an end of it is not
between two characters. -/
def sliceBytes? (s : String) (first last : Nat) : Option String :=
  if within : (⟨first⟩ : String.Pos.Raw).IsValid s ∧ (⟨last⟩ : String.Pos.Raw).IsValid s ∧
      first ≤ last then
    some (s.extract ⟨⟨first⟩, within.1⟩ ⟨⟨last⟩, within.2.1⟩)
  else none

theorem sliceBytes?_append (front inner back : String) :
    sliceBytes? (front ++ inner ++ back) front.utf8ByteSize (front ++ inner).utf8ByteSize =
      some inner := by
  have first : (⟨front.utf8ByteSize⟩ : String.Pos.Raw).IsValid (front ++ inner ++ back) :=
    String.Pos.Raw.isValid_iff_exists_append.mpr ⟨front, inner ++ back, String.append_assoc, rfl⟩
  have last : (⟨(front ++ inner).utf8ByteSize⟩ : String.Pos.Raw).IsValid (front ++ inner ++ back) :=
    String.Pos.Raw.isValid_iff_exists_append.mpr ⟨front ++ inner, back, rfl, rfl⟩
  have order : front.utf8ByteSize ≤ (front ++ inner).utf8ByteSize := by simp
  have bytes : (front ++ inner ++ back).toByteArray.extract front.utf8ByteSize
      (front ++ inner).utf8ByteSize = inner.toByteArray := by
    have after := ByteArray.extract_append_size_add (a := front.toByteArray)
      (b := (inner ++ back).toByteArray) (i := 0) (j := inner.utf8ByteSize)
    rw [Nat.add_zero] at after
    rw [String.append_assoc, String.toByteArray_append, String.utf8ByteSize_append,
      ← String.size_toByteArray, after, String.toByteArray_append, ← String.size_toByteArray,
      ByteArray.extract_append_size_left, ByteArray.extract_zero_size]
  rw [sliceBytes?, dif_pos ⟨first, last, order⟩, Option.some_inj, ← String.toByteArray_inj]
  exact bytes

namespace Text

theorem utf8ByteSize_ofList (cs : List Char) :
    (String.ofList cs).utf8ByteSize = byteCount cs := by
  induction cs with
  | nil => rfl
  | cons c cs ih =>
    have split : String.ofList (c :: cs) = String.singleton c ++ String.ofList cs := by
      rw [String.singleton_eq_ofList, ← String.ofList_append, List.singleton_append]
    rw [split, String.utf8ByteSize_append, String.utf8ByteSize_singleton, ih]
    rfl

/-- The numbers of bytes up to a limit after which a text may be cut. -/
def boundaries (limit : ℕ) (s : String) : Set ℕ :=
  {n | n ≤ limit ∧ (⟨n⟩ : String.Pos.Raw).IsValid s}

/-- Steps back, byte by byte, until the text may be cut. There is no step back from the start: the
search fails if it comes to one. -/
def boundary? (s : String) : ℕ → Option ℕ
  | 0 => if (⟨0⟩ : String.Pos.Raw).isValid s then some 0 else none
  | n + 1 => if (⟨n + 1⟩ : String.Pos.Raw).isValid s then some (n + 1) else boundary? s n

theorem boundary?_of_isGreatest {s : String} {limit last : ℕ}
    (greatest : IsGreatest (boundaries limit s) last) : boundary? s limit = some last := by
  induction limit with
  | zero =>
    obtain rfl : last = 0 := Nat.le_zero.mp greatest.1.1
    exact if_pos (String.Pos.Raw.isValid_eq_true_iff.mpr greatest.1.2)
  | succ limit ih =>
    by_cases here : (⟨limit + 1⟩ : String.Pos.Raw).IsValid s
    · have top : IsGreatest (boundaries (limit + 1) s) (limit + 1) :=
        ⟨⟨Nat.le_refl _, here⟩, fun _ member ↦ member.1⟩
      obtain rfl := greatest.unique top
      exact if_pos (String.Pos.Raw.isValid_eq_true_iff.mpr here)
    · -- Nothing is lost by a step back from a place that is none.
      have narrower : boundaries (limit + 1) s = boundaries limit s := by
        ext n
        refine ⟨fun ⟨below, valid⟩ ↦ ⟨?_, valid⟩,
          fun ⟨below, valid⟩ ↦ ⟨Nat.le_succ_of_le below, valid⟩⟩
        have other : n ≠ limit + 1 := fun same ↦ here (same ▸ valid)
        omega
      rw [boundary?, if_neg (mt String.Pos.Raw.isValid_eq_true_iff.mp here)]
      exact ih (narrower ▸ greatest)

end Text

end Supervisor
