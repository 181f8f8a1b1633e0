import Mathlib.Data.List.TakeWhile
import Supervisor.Text.Blank

/-!
# What is trimmed away

`Blank` text is nothing but white space, and `Tight` text has none at either end. `trim` takes off
the blanks around a tight text, whatever is in it (`trim_eq_iff`).
-/

set_option autoImplicit false
set_option relaxedAutoImplicit false

namespace Supervisor.Text

/-- Nothing but white space. -/
def Blank (cs : List Char) : Prop :=
  ∀ c ∈ cs, isBlank c = true

instance (cs : List Char) : Decidable (Blank cs) :=
  List.decidableBAll _ cs

/-- No white space at either end. -/
structure Tight (cs : List Char) : Prop where
  first : ∀ c ∈ cs.head?, isBlank c = false
  last : ∀ c ∈ cs.getLast?, isBlank c = false

variable {cs ds lead trail : List Char}

theorem Blank.nil : Blank [] :=
  fun _ h ↦ absurd h List.not_mem_nil

theorem Blank.append (first : Blank lead) (second : Blank trail) : Blank (lead ++ trail) :=
  fun c h ↦ (List.mem_append.mp h).elim (first c) (second c)

theorem Blank.not_mem {c : Char} (blank : Blank cs) (mark : isBlank c = false) : c ∉ cs := by
  intro known
  cases mark.symm.trans (blank c known)

theorem Tight.append (first : ∀ c ∈ ds.head?, isBlank c = false) (some : ds ≠ [])
    (tight : Tight cs) (filled : cs ≠ []) : Tight (ds ++ cs) := by
  obtain ⟨c, rest, rfl⟩ := List.exists_cons_of_ne_nil some
  refine ⟨first, fun d last ↦ tight.last d ?_⟩
  rwa [List.getLast?_append, List.getLast?_eq_some_getLast filled, Option.some_or,
    ← List.getLast?_eq_some_getLast filled] at last

theorem Tight.of_forall (filled : ∀ c ∈ cs, isBlank c = false) : Tight cs :=
  ⟨fun c first ↦ filled c (List.mem_of_head? first),
    fun c last ↦ filled c (List.mem_of_getLast? last)⟩

theorem Tight.sign : Tight ['='] :=
  ⟨by rintro c ⟨⟩; decide, by rintro c ⟨⟩; decide⟩

theorem dropBlanks_append (blank : Blank lead) (cs : List Char) :
    dropBlanks (lead ++ cs) = dropBlanks cs :=
  List.dropWhile_append_of_pos blank

theorem exists_dropBlanks (cs : List Char) : ∃ lead, Blank lead ∧ cs = lead ++ dropBlanks cs :=
  ⟨cs.takeWhile isBlank, fun _ h ↦ List.mem_takeWhile_imp h,
    List.takeWhile_append_dropWhile.symm⟩

theorem isBlank_of_dropBlanks {c : Char} (first : c ∈ (dropBlanks cs).head?) :
    isBlank c = false := by
  have stops := List.head?_dropWhile_not isBlank cs
  rw [← dropBlanks, Option.mem_def.mp first] at stops
  simpa using stops

theorem trim_blank_append (blank : Blank lead) (cs : List Char) : trim (lead ++ cs) = trim cs := by
  rw [trim, trim, dropBlanks_append blank]

theorem trim_append_blank (blank : Blank trail) (cs : List Char) :
    trim (cs ++ trail) = trim cs := by
  have reversed : Blank trail.reverse := fun c h ↦ blank c (List.mem_reverse.mp h)
  by_cases none : dropBlanks cs = []
  · obtain ⟨lead, before, all⟩ := exists_dropBlanks cs
    rw [none, List.append_nil] at all
    have whole : dropBlanks (cs ++ trail) = [] := by
      rw [all, ← List.append_nil (lead ++ trail), dropBlanks_append (before.append blank)]
      rfl
    rw [trim, trim, whole, none]
  · have front : dropBlanks (cs ++ trail) = dropBlanks cs ++ trail := by
      unfold dropBlanks at none ⊢
      rw [List.dropWhile_append, if_neg (by simpa using none)]
    rw [trim, trim, front, List.reverse_append, dropBlanks_append reversed]

theorem Tight.trim_eq (tight : Tight cs) : trim cs = cs :=
  trim_eq_self tight.first tight.last

/-- What is trimmed away at the end. -/
theorem exists_trim_append (cs : List Char) :
    ∃ trail, Blank trail ∧ dropBlanks cs = trim cs ++ trail := by
  obtain ⟨lead, before, all⟩ := exists_dropBlanks (dropBlanks cs).reverse
  refine ⟨lead.reverse, fun c h ↦ before c (List.mem_reverse.mp h), ?_⟩
  rw [trim, ← List.reverse_append, ← all, List.reverse_reverse]

/-- What is not white space stays in front. -/
theorem head?_trim {c : Char} (blank : Blank lead) (mark : isBlank c = false) (rest : List Char) :
    (trim (lead ++ c :: rest)).head? = some c := by
  obtain ⟨trail, after, all⟩ := exists_trim_append (c :: rest)
  have first : dropBlanks (c :: rest) = c :: rest := List.dropWhile_cons_of_neg (by simp [mark])
  rw [first] at all
  rw [trim_blank_append blank]
  cases kept : trim (c :: rest) with
  | nil =>
    rw [kept, List.nil_append] at all
    exact absurd (all ▸ List.mem_cons_self) (after.not_mem mark)
  | cons d ds =>
    rw [kept, List.cons_append] at all
    rw [List.head?_cons, (List.cons.inj all).1]

theorem tight_trim (cs : List Char) : Tight (trim cs) := by
  constructor
  · intro c first
    obtain ⟨trail, -, all⟩ := exists_trim_append cs
    refine @isBlank_of_dropBlanks cs c ?_
    rw [all, List.head?_append, Option.mem_def.mp first]
    rfl
  · intro c last
    rw [trim, List.getLast?_reverse] at last
    exact isBlank_of_dropBlanks last

theorem trim_eq_iff : trim cs = ds ↔
    Tight ds ∧ ∃ lead trail, Blank lead ∧ Blank trail ∧ cs = lead ++ ds ++ trail := by
  constructor
  · rintro rfl
    obtain ⟨lead, before, front⟩ := exists_dropBlanks cs
    obtain ⟨trail, after, back⟩ := exists_trim_append cs
    refine ⟨tight_trim cs, lead, trail, before, after, ?_⟩
    rw [List.append_assoc, ← back, ← front]
  · rintro ⟨tight, lead, trail, before, after, rfl⟩
    rw [trim_append_blank after, trim_blank_append before, tight.trim_eq]

end Supervisor.Text
