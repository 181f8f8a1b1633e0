import Supervisor.Proofs.Text.Bytes
import Supervisor.World.Basic

/-!
# What a limit in bytes leaves of a text

A text is cut by characters, from its front on, as far as the limit allows (`Text.clip`). In memory
it is cut at the last byte before the limit at which it may be cut. `Text.Clipped` says what both
make of it, and `clip_clipped` that they do: the longest run of whole characters, at most three
bytes short of the limit since no character has more than four. `setLabel_clips` is what this means
for the labels that have a limit.
-/

set_option autoImplicit false
set_option relaxedAutoImplicit false

namespace Supervisor

namespace Text

variable {limit : ℕ} {s : String}

/-- Cuts a text at the last place up to the limit at which it may be cut. None if there is no such
place, or if the slice is not made of whole characters. -/
def clipBytes? (limit : ℕ) (s : String) : Option String :=
  if limit < s.utf8ByteSize then (boundary? s limit).bind (sliceBytes? s 0) else some s

/-! ### By characters -/

theorem byteCount_append (cs ds : List Char) :
    byteCount (cs ++ ds) = byteCount cs + byteCount ds := by
  rw [← utf8ByteSize_ofList, String.ofList_append, String.utf8ByteSize_append, utf8ByteSize_ofList,
    utf8ByteSize_ofList]

theorem utf8ByteSize_eq (s : String) : s.utf8ByteSize = byteCount s.toList := by
  rw [← utf8ByteSize_ofList, String.ofList_toList]

/-- Whatever fits from the front is kept. -/
theorem prefix_clipChars {room : ℕ} {front cs : List Char} (begins : front <+: cs)
    (fits : byteCount front ≤ room) : front <+: clipChars room cs := by
  induction cs generalizing room front with
  | nil => exact begins
  | cons c cs ih =>
    cases front with
    | nil => exact List.nil_prefix
    | cons d front =>
      obtain ⟨rfl, after⟩ := List.cons_prefix_cons.mp begins
      have size : byteCount (d :: front) = d.utf8Size + byteCount front := rfl
      rw [clipChars, if_pos (by omega)]
      exact List.cons_prefix_cons.mpr ⟨rfl, ih after (by omega)⟩

theorem clip_of_le (fits : s.utf8ByteSize ≤ limit) : clip limit s = s :=
  if_pos fits

theorem utf8ByteSize_clip_le (limit : ℕ) (s : String) : (clip limit s).utf8ByteSize ≤ limit := by
  unfold clip
  split
  next fits => exact fits
  next =>
    rw [utf8ByteSize_ofList]
    exact byteCount_clipChars_le limit s.toList

theorem exists_eq_clip_append (limit : ℕ) (s : String) : ∃ rest, s = clip limit s ++ rest := by
  unfold clip
  split
  · exact ⟨"", by simp⟩
  · obtain ⟨rest, split⟩ := clipChars_isPrefix limit s.toList
    refine ⟨String.ofList rest, ?_⟩
    rw [← String.ofList_append, split, String.ofList_toList]

theorem utf8ByteSize_le_clip {front rest : String} (fits : front.utf8ByteSize ≤ limit) :
    front.utf8ByteSize ≤ (clip limit (front ++ rest)).utf8ByteSize := by
  unfold clip
  split
  · rw [String.utf8ByteSize_append]
    exact Nat.le_add_right _ _
  · rw [utf8ByteSize_ofList, utf8ByteSize_eq front]
    rw [utf8ByteSize_eq] at fits
    have begins : front.toList <+: (front ++ rest).toList := by
      rw [String.toList_append]
      exact List.prefix_append _ _
    obtain ⟨more, kept⟩ := prefix_clipChars begins fits
    rw [← kept, byteCount_append]
    exact Nat.le_add_right _ _

/-- No place further on, up to the limit, is between two characters. -/
theorem isGreatest_clip (limit : ℕ) (s : String) :
    IsGreatest (boundaries limit s) (clip limit s).utf8ByteSize := by
  constructor
  · obtain ⟨rest, split⟩ := exists_eq_clip_append limit s
    exact ⟨utf8ByteSize_clip_le limit s,
      String.Pos.Raw.isValid_iff_exists_append.mpr ⟨_, rest, split, rfl⟩⟩
  · rintro n ⟨below, valid⟩
    obtain ⟨front, rest, rfl, same⟩ := String.Pos.Raw.isValid_iff_exists_append.mp valid
    obtain rfl : n = front.utf8ByteSize := congrArg String.Pos.Raw.byteIdx same
    exact utf8ByteSize_le_clip below

/-! ### By bytes -/

/-- The search finds a place, and the slice up to it is made of whole characters. -/
theorem clipBytes?_eq (limit : ℕ) (s : String) : clipBytes? limit s = some (clip limit s) := by
  unfold clipBytes?
  split
  next =>
    obtain ⟨rest, split⟩ := exists_eq_clip_append limit s
    have slice := sliceBytes?_append "" (clip limit s) rest
    rw [String.empty_append, ← split] at slice
    rw [boundary?_of_isGreatest (isGreatest_clip limit s), Option.bind_some]
    exact slice
  next fits => rw [clip_of_le (Nat.le_of_not_lt fits)]

/-- A character more does not fit. -/
theorem le_utf8ByteSize_clip (long : limit < s.utf8ByteSize) :
    limit ≤ (clip limit s).utf8ByteSize + 3 := by
  obtain ⟨rest, split⟩ := exists_eq_clip_append limit s
  have left : rest.toList ≠ [] := by
    intro none
    rw [split, String.utf8ByteSize_append, utf8ByteSize_eq rest, none] at long
    exact Nat.not_le_of_lt long (utf8ByteSize_clip_le limit s)
  obtain ⟨c, cs, next⟩ := List.exists_cons_of_ne_nil left
  have further : s = clip limit s ++ String.ofList [c] ++ String.ofList cs := by
    rw [String.append_assoc, ← String.ofList_append, List.singleton_append, ← next,
      String.ofList_toList, ← split]
  have size : (clip limit s ++ String.ofList [c]).utf8ByteSize =
      (clip limit s).utf8ByteSize + c.utf8Size := by
    rw [String.utf8ByteSize_append, ← String.singleton_eq_ofList, String.utf8ByteSize_singleton]
  have past : limit < (clip limit s).utf8ByteSize + c.utf8Size := by
    by_contra within
    have kept := (isGreatest_clip limit s).2 ⟨size ▸ Nat.le_of_not_lt within,
      String.Pos.Raw.isValid_iff_exists_append.mpr ⟨_, _, further, rfl⟩⟩
    have positive := c.utf8Size_pos
    omega
  have width := c.utf8Size_le_four
  omega

theorem clip_ne_empty (filled : s ≠ "") (wide : 4 ≤ limit) : clip limit s ≠ "" := by
  intro none
  by_cases long : limit < s.utf8ByteSize
  · have near := le_utf8ByteSize_clip long
    rw [none] at near
    exact absurd near (by simp; omega)
  · exact filled (clip_of_le (Nat.le_of_not_lt long) ▸ none)

/-- What the limit leaves of the text. -/
structure Clipped (limit : ℕ) (s t : String) : Prop where
  /-- By bytes it is found without a step back from the start, and no character is cut in two. -/
  found : clipBytes? limit s = some t
  front : ∃ rest, s = t ++ rest
  longest : IsGreatest (boundaries limit s) t.utf8ByteSize
  bytes : t.toByteArray = s.toByteArray.extract 0 t.utf8ByteSize
  valid : (s.toByteArray.extract 0 t.utf8ByteSize).IsValidUTF8
  whole : s.utf8ByteSize ≤ limit → t = s
  near : limit < s.utf8ByteSize → limit ≤ t.utf8ByteSize + 3
  again : clipBytes? limit t = some t

theorem clip_clipped (limit : ℕ) (s : String) : Clipped limit s (clip limit s) where
  found := clipBytes?_eq limit s
  front := exists_eq_clip_append limit s
  longest := isGreatest_clip limit s
  bytes := by
    obtain ⟨rest, split⟩ := exists_eq_clip_append limit s
    generalize clip limit s = kept at split ⊢
    subst split
    rw [String.toByteArray_append, ← String.size_toByteArray, ByteArray.extract_append_size_left,
      ByteArray.extract_zero_size]
  valid := (isGreatest_clip limit s).1.2.isValidUTF8_extract_zero
  whole := clip_of_le
  near := le_utf8ByteSize_clip
  again := by rw [clipBytes?_eq, clip_of_le (utf8ByteSize_clip_le limit s)]

example : clip 4 "aéé" = "aé" := by decide

end Text

/-! ### Labels -/

theorem Label.keep_of_limit {label : Label} {limit : ℕ} {text : String}
    (limited : label.limit? = some limit) (filled : text ≠ "") :
    label.keep text = some (Text.clip limit text) := by
  unfold keep
  rw [if_neg (by simpa [String.isEmpty_iff] using filled), limited]

theorem World.label_edit_self {σ : Type} (w : World σ) (h : Handle) (label : Label)
    (text : String) :
    ((w.edit h (.setLabel label text)).2.session h).label label = label.keep text := by
  show ((w.edit h (.setLabel label text)).2.proxy h).session.label label = _
  rw [proxy_edit_self]
  exact (Session.label_setLabel _ _ _ _).trans (if_pos rfl)

/-- A tag keeps what 64 bytes leave of the text that is given for it, and a nickname what 256 do. An
empty text clears them, and they are never empty themselves. -/
theorem World.setLabel_clips {σ : Type} (w : World σ) (h : Handle) (text : String) :
    (∀ limit, Text.Clipped limit text (Text.clip limit text)) ∧
      ∀ label limit, (label, limit) ∈ [(Label.tag, 64), (Label.nickname, 256)] →
        let kept := ((w.edit h (.setLabel label text)).2.session h).label label
        (text ≠ "" → kept = some (Text.clip limit text)) ∧ (text = "" → kept = none) ∧
          kept ≠ some "" := by
  refine ⟨fun limit ↦ Text.clip_clipped limit text, ?_⟩
  intro label limit known kept
  have kept_eq : kept = label.keep text := w.label_edit_self h label text
  obtain ⟨limited, wide⟩ : label.limit? = some limit ∧ 4 ≤ limit := by
    simp only [List.mem_cons, Prod.mk.injEq, List.not_mem_nil, or_false] at known
    rcases known with ⟨rfl, rfl⟩ | ⟨rfl, rfl⟩
    · exact ⟨rfl, by decide⟩
    · exact ⟨rfl, by decide⟩
  rw [kept_eq]
  by_cases empty : text = ""
  · subst empty
    exact ⟨fun filled ↦ absurd rfl filled, fun _ ↦ rfl, nofun⟩
  · rw [Label.keep_of_limit limited empty]
    exact ⟨fun _ ↦ rfl, fun none ↦ absurd none empty,
      fun hollow ↦ Text.clip_ne_empty empty wide (Option.some.inj hollow)⟩

end Supervisor
