/-!
# Cutting a text to a number of bytes

`clip limit s` is the longest run of whole characters from the front of `s` whose UTF-8 form has at
most `limit` bytes.
-/

set_option autoImplicit false
set_option relaxedAutoImplicit false

namespace Supervisor.Text

def clipChars (room : Nat) : List Char → List Char
  | [] => []
  | c :: cs => if c.utf8Size ≤ room then c :: clipChars (room - c.utf8Size) cs else []

def clip (limit : Nat) (s : String) : String :=
  if s.utf8ByteSize ≤ limit then s else String.ofList (clipChars limit s.toList)

def byteCount (cs : List Char) : Nat :=
  cs.foldr (fun c bytes ↦ c.utf8Size + bytes) 0

theorem byteCount_clipChars_le (room : Nat) (cs : List Char) :
    byteCount (clipChars room cs) ≤ room := by
  induction cs generalizing room with
  | nil => simp [clipChars, byteCount]
  | cons c cs ih =>
    rw [clipChars]
    split
    · have := ih (room - c.utf8Size)
      simp only [byteCount, List.foldr_cons] at this ⊢
      omega
    · simp [byteCount]

theorem clipChars_isPrefix (room : Nat) (cs : List Char) : clipChars room cs <+: cs := by
  induction cs generalizing room with
  | nil => exact List.nil_prefix
  | cons c cs ih =>
    rw [clipChars]
    split
    · exact List.cons_prefix_cons.2 ⟨rfl, ih _⟩
    · exact List.nil_prefix

end Supervisor.Text
