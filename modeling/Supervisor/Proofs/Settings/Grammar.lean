import Supervisor.Proofs.Text.Blank
import Supervisor.Settings.Text

/-!
# What a line of settings says

A `Form` is a way to write an assignment on a line: perhaps exported, perhaps in quotes, with white
space wherever there may be some. `Form.line` writes a value for a key in that way, and `Spells`
says that a line is written so. `spells_iff` is the grammar of lines: what is read from a line is
the key and the value that it spells, and nothing is read from a line that spells none.

The steps of reading each come with what they undo: `Text.trim` white space (`Text.trim_eq_iff`),
`unquote` one pair of quotes (`unquote_write`), `splitAtSign?` the first equality sign
(`splitAtSign?_eq_some_iff`).
-/

set_option autoImplicit false
set_option relaxedAutoImplicit false

namespace Supervisor

/-! ### Quotes -/

/-- How a value is set apart from what stands around it. -/
inductive Quotation
  | bare
  | double
  | single
deriving DecidableEq

def Quotation.write : Quotation → List Char → List Char
  | .bare, v => v
  | .double, v => '"' :: (v ++ ['"'])
  | .single, v => '\'' :: (v ++ ['\''])

/-- The value stands in a pair of equal quotes. -/
def Enclosed (v : List Char) : Prop :=
  ∃ inner, v = Quotation.double.write inner ∨ v = Quotation.single.write inner

section

variable {cs v : List Char}

theorem unquote_write {quotation : Quotation} (bare : quotation = .bare → ¬ Enclosed v) :
    unquote (quotation.write v) = v := by
  cases quotation with
  | double | single => simp [Quotation.write, unquote]
  | bare =>
    show unquote v = v
    cases v with
    | nil => rfl
    | cons q rest =>
      refine if_neg ?_
      rintro ⟨mark, last⟩
      obtain ⟨inner, rfl⟩ := List.getLast?_eq_some_iff.mp last
      apply bare rfl
      rcases mark with rfl | rfl
      · exact ⟨inner, .inl rfl⟩
      · exact ⟨inner, .inr rfl⟩

theorem unquote_of_plain (plain : ¬ Enclosed v) : unquote v = v :=
  @unquote_write v .bare fun _ ↦ plain

/-- Whatever a value is read from is one of the three ways to write it. -/
theorem exists_write (cs : List Char) : ∃ quotation : Quotation,
    cs = quotation.write (unquote cs) ∧ (quotation = .bare → ¬ Enclosed cs) := by
  by_cases enclosed : Enclosed cs
  · obtain ⟨inner, rfl | rfl⟩ := enclosed
    · refine ⟨.double, ?_, by simp⟩
      rw [unquote_write (by simp)]
    · refine ⟨.single, ?_, by simp⟩
      rw [unquote_write (by simp)]
  · exact ⟨.bare, (unquote_of_plain enclosed).symm, fun _ ↦ enclosed⟩

theorem Text.Tight.enclose {q : Char} (mark : Text.isBlank q = false) (v : List Char) :
    Text.Tight (q :: (v ++ [q])) := by
  constructor
  · intro c first
    cases first
    exact mark
  · intro c last
    rw [← List.cons_append, List.getLast?_concat] at last
    cases last
    exact mark

theorem Text.Tight.write {quotation : Quotation} (bare : quotation = .bare → Text.Tight v) :
    Text.Tight (quotation.write v) := by
  cases quotation with
  | bare => exact bare rfl
  | double | single => exact .enclose (by decide) v

/-! ### Signs and export -/

theorem splitAtSign?_of_split {before after : List Char} (free : '=' ∉ before) :
    splitAtSign? (before ++ '=' :: after) = some (before, after) := by
  have passed : ∀ c ∈ before, (c != '=') = true :=
    fun c known ↦ bne_iff_ne.mpr fun same ↦ free (same ▸ known)
  unfold splitAtSign?
  rw [List.dropWhile_append_of_pos passed, List.takeWhile_append_of_pos passed]
  simp

theorem splitAtSign?_eq_none_iff : splitAtSign? cs = none ↔ '=' ∉ cs := by
  constructor
  · intro none sign
    obtain ⟨before, after, rfl, free⟩ := List.eq_append_cons_of_mem sign
    cases none.symm.trans (splitAtSign?_of_split free)
  · intro free
    have all : cs.dropWhile (· != '=') = [] :=
      List.dropWhile_eq_nil_iff.mpr fun c known ↦ bne_iff_ne.mpr fun same ↦ free (same ▸ known)
    rw [splitAtSign?, all]

theorem splitAtSign?_eq_some_iff {before after : List Char} :
    splitAtSign? cs = some (before, after) ↔ '=' ∉ before ∧ cs = before ++ '=' :: after := by
  constructor
  · intro found
    have sign : '=' ∈ cs := by
      by_contra free
      cases found.symm.trans (splitAtSign?_eq_none_iff.mpr free)
    obtain ⟨front, back, rfl, free⟩ := List.eq_append_cons_of_mem sign
    cases found.symm.trans (splitAtSign?_of_split free)
    exact ⟨free, rfl⟩
  · rintro ⟨free, rfl⟩
    exact splitAtSign?_of_split free

/-- The word before an exported key. -/
def exportWord (exported : Bool) : List Char :=
  if exported then "export ".toList else []

/-- Nothing but the word is taken away. -/
theorem exists_stripExport (cs : List Char) :
    ∃ exported, cs = exportWord exported ++ stripExport cs := by
  unfold stripExport
  split
  next word =>
    obtain ⟨rest, rfl⟩ := List.isPrefixOf_iff_prefix.mp word
    exact ⟨true, rfl⟩
  next => exact ⟨false, rfl⟩

/-! ### Lines -/

/-- White space within a line. -/
structure Padding where
  cs : List Char
  blank : Text.Blank cs
  single : '\n' ∉ cs

/-- A way to write an assignment on a line. -/
structure Form where
  exported : Bool
  quotation : Quotation
  lead : Padding
  beforeKey : Padding
  afterKey : Padding
  beforeValue : Padding
  trail : Padding

namespace Form

/-- The word `export` comes with one space; more of them are part of the padding before the key. -/
def line (form : Form) (key : SettingKey) (v : List Char) : List Char :=
  form.lead.cs ++ (exportWord form.exported ++
    ((form.beforeKey.cs ++ key.name.toList ++ form.afterKey.cs) ++ '=' ::
      (form.beforeValue.cs ++ form.quotation.write v ++ form.trail.cs)))

/-- A bare value is told from what is around it by being neither padded nor enclosed itself. -/
def Fits (form : Form) (v : List Char) : Prop :=
  form.quotation = .bare → Text.Tight v ∧ ¬ Enclosed v

end Form

/-- The line is a way to write the value for the key. -/
def Spells (key : SettingKey) (v line : List Char) : Prop :=
  ∃ form : Form, form.Fits v ∧ line = form.line key v

/-- The text before the first equality sign of a line names the key. -/
inductive Names (key : SettingKey) : List Char → Prop
  | written (exported : Bool) (lead beforeKey afterKey : Padding) :
      Names key (lead.cs ++ (exportWord exported ++
        (beforeKey.cs ++ key.name.toList ++ afterKey.cs)))

/-- The key and the value of a line, whether or not it is a value for that key. -/
def keyValue? (line : List Char) : Option (SettingKey × List Char) := do
  let line := Text.trim line
  if line.head? = some '#' then none
  else
    let (key, value) ← splitAtSign? (stripExport line)
    let key ← SettingKey.ofName? (Text.trim key)
    some (key, unquote (Text.trim value))

theorem ofLine?_eq (line : List Char) :
    Assignment.ofLine? line = (keyValue? line).bind fun entry ↦ entry.1.assign? entry.2 := by
  unfold Assignment.ofLine? keyValue?
  dsimp only
  split
  next => rfl
  next =>
    cases splitAtSign? (stripExport (Text.trim line)) with
    | none => rfl
    | some parts =>
      cases found : SettingKey.ofName? (Text.trim parts.1) with
      | none => simp [found]
      | some key => simp [found]

end

namespace SettingKey

variable (key : SettingKey)

theorem tight_name : Text.Tight key.name.toList := by
  constructor
  · cases key <;> rintro c ⟨⟩ <;> decide
  · cases key <;> rintro c ⟨⟩ <;> decide

theorem name_ne_nil : key.name.toList ≠ [] := by
  cases key <;> decide

theorem sign_not_mem_name : '=' ∉ key.name.toList := by
  cases key <;> decide

theorem feed_not_mem_name : '\n' ∉ key.name.toList := by
  cases key <;> decide

theorem head?_name_append (cs : List Char) : (key.name.toList ++ cs).head? = some 'X' := by
  cases key <;> rfl

theorem stripExport_name_append (cs : List Char) :
    stripExport (key.name.toList ++ cs) = key.name.toList ++ cs := by
  cases key <;> rfl

theorem eq_name_of_ofName? {key : SettingKey} {cs : List Char} (found : ofName? cs = some key) :
    cs = key.name.toList := by
  have same := List.find?_some found
  exact (decide_eq_true_eq.mp same).symm

end SettingKey

/-! ### The grammar of lines -/

section

variable {key : SettingKey} {v line : List Char} {form : Form}

/-- White space around a value may belong to it or to the line; it is trimmed away all the same. -/
theorem exists_tail {cs : List Char} (tight : Text.Tight cs) (before after : Padding) :
    ∃ tail, Text.trim tail = cs ∧ ∀ front, (∀ c ∈ front.head?, Text.isBlank c = false) →
      front ≠ [] →
        Text.trim (front ++ '=' :: (before.cs ++ cs ++ after.cs)) = front ++ '=' :: tail := by
  by_cases empty : cs = []
  · subst empty
    refine ⟨[], rfl, fun front first some ↦ ?_⟩
    have ends : Text.Tight (front ++ ['=']) := .append first some .sign (by simp)
    rw [List.append_nil, List.append_cons,
      Text.trim_append_blank (before.blank.append after.blank), ends.trim_eq]
  · refine ⟨before.cs ++ cs, ?_, fun front first some ↦ ?_⟩
    · rw [Text.trim_blank_append before.blank, tight.trim_eq]
    · have ends : Text.Tight ((front ++ '=' :: before.cs) ++ cs) := by
        obtain ⟨c, rest, rfl⟩ := List.exists_cons_of_ne_nil some
        exact .append first (by simp) tight empty
      rw [List.append_assoc, List.cons_append] at ends
      rw [← List.cons_append, ← List.append_assoc, Text.trim_append_blank after.blank, ends.trim_eq]

/-- What is left of a line after trimming. -/
theorem exists_trim_line (key : SettingKey) (fits : form.Fits v) : ∃ front tail,
    Text.Blank front ∧ Text.trim tail = form.quotation.write v ∧
      (Text.trim (form.line key v)).head? ≠ some '#' ∧
      stripExport (Text.trim (form.line key v)) =
        (front ++ key.name.toList ++ form.afterKey.cs) ++ '=' :: tail := by
  have tight : Text.Tight (form.quotation.write v) := .write fun bare ↦ (fits bare).1
  obtain ⟨tail, value, whole⟩ := exists_tail tight form.beforeValue form.trail
  unfold Form.line
  rw [Text.trim_blank_append form.lead.blank]
  cases form.exported with
  | true =>
    refine ⟨form.beforeKey.cs, tail, form.beforeKey.blank, value, ?_⟩
    rw [← List.append_assoc, whole _ (by rintro c ⟨⟩; decide) (by simp [exportWord]),
      List.append_assoc]
    exact ⟨by simp [exportWord], rfl⟩
  | false =>
    refine ⟨[], tail, .nil, value, ?_⟩
    have named (cs : List Char) : ∀ c ∈ (key.name.toList ++ cs).head?, Text.isBlank c = false := by
      rw [key.head?_name_append]
      rintro c ⟨⟩
      decide
    have filled : key.name.toList ++ form.afterKey.cs ≠ [] := by simp [key.name_ne_nil]
    rw [exportWord, if_neg Bool.false_ne_true, List.nil_append, List.append_assoc form.beforeKey.cs,
      List.append_assoc form.beforeKey.cs, Text.trim_blank_append form.beforeKey.blank,
      whole _ (named _) filled, List.append_assoc, key.head?_name_append,
      key.stripExport_name_append, List.nil_append]
    exact ⟨by decide, (List.append_assoc _ _ _).symm⟩

/-- The line gives the key and the value back. -/
theorem keyValue?_line (fits : form.Fits v) : keyValue? (form.line key v) = some (key, v) := by
  obtain ⟨front, tail, blank, value, comment, stripped⟩ := exists_trim_line key fits
  have sign : Text.isBlank '=' = false := by decide
  have free : '=' ∉ front ++ key.name.toList ++ form.afterKey.cs := by
    simp only [List.mem_append, not_or]
    exact ⟨⟨blank.not_mem sign, key.sign_not_mem_name⟩, form.afterKey.blank.not_mem sign⟩
  have name : Text.trim (front ++ key.name.toList ++ form.afterKey.cs) = key.name.toList := by
    rw [Text.trim_append_blank form.afterKey.blank, Text.trim_blank_append blank,
      key.tight_name.trim_eq]
  unfold keyValue?
  dsimp only
  rw [if_neg comment, stripped, splitAtSign?_of_split free]
  simp only [Option.bind_eq_bind, Option.bind_some, name, SettingKey.ofName?_name, value,
    unquote_write fun bare ↦ (fits bare).2]

theorem keyValue?_eq_some (found : keyValue? line = some (key, v)) :
    ∃ before after, stripExport (Text.trim line) = before ++ '=' :: after ∧
      Text.trim before = key.name.toList ∧ unquote (Text.trim after) = v := by
  unfold keyValue? at found
  dsimp only at found
  split at found
  · cases found
  obtain ⟨⟨before, after⟩, parted, found⟩ := Option.bind_eq_some_iff.mp found
  obtain ⟨known, named, found⟩ := Option.bind_eq_some_iff.mp found
  cases found
  exact ⟨before, after, (splitAtSign?_eq_some_iff.mp parted).2, SettingKey.eq_name_of_ofName? named,
    rfl⟩

/-- Whatever comes after the sign spells a value. -/
theorem spells_of_names {before after : List Char} (named : Names key before)
    (single : '\n' ∉ after) :
    Spells key (unquote (Text.trim after)) (before ++ '=' :: after) := by
  obtain ⟨exported, lead, front, back⟩ := named
  obtain ⟨tight, first, last, firsts, lasts, all⟩ := Text.trim_eq_iff.mp (rfl : Text.trim after = _)
  obtain ⟨quotation, written, bare⟩ := exists_write (Text.trim after)
  have pieces : after = first ++ quotation.write (unquote (Text.trim after)) ++ last := by
    rw [← written, ← all]
  generalize unquote (Text.trim after) = v at pieces written ⊢
  subst pieces
  simp only [List.mem_append, not_or] at single
  obtain ⟨⟨noFirst, -⟩, noLast⟩ := single
  refine ⟨⟨exported, quotation, lead, front, back, ⟨first, firsts, noFirst⟩,
    ⟨last, lasts, noLast⟩⟩, ?_, ?_⟩
  · rintro rfl
    rw [written] at tight bare
    exact ⟨tight, bare rfl⟩
  · simp only [Form.line, List.append_assoc]

/-- A line that a value was read from is put together from what reading it took away. -/
theorem spells_of_keyValue? (single : '\n' ∉ line) (found : keyValue? line = some (key, v)) :
    Spells key v line := by
  obtain ⟨before, after, parted, named, rfl⟩ := keyValue?_eq_some found
  obtain ⟨-, lead, trail, leads, trails, whole⟩ := Text.trim_eq_iff.mp (rfl : Text.trim line = _)
  obtain ⟨exported, word⟩ := exists_stripExport (Text.trim line)
  obtain ⟨-, front, back, fronts, backs, rfl⟩ := Text.trim_eq_iff.mp named
  have pieces : line = (lead ++ (exportWord exported ++ (front ++ key.name.toList ++ back))) ++
      '=' :: (after ++ trail) := by
    rw [whole, word, parted]
    simp only [List.append_assoc, List.cons_append]
  rw [pieces] at single ⊢
  simp only [List.mem_append, List.mem_cons, not_or] at single
  obtain ⟨⟨noLead, -, ⟨noFront, -⟩, noBack⟩, -, noAfter, noTrail⟩ := single
  rw [← Text.trim_append_blank trails]
  exact spells_of_names
    (.written exported ⟨lead, leads, noLead⟩ ⟨front, fronts, noFront⟩ ⟨back, backs, noBack⟩)
    (by simp [noAfter, noTrail])

theorem spells_iff (single : '\n' ∉ line) : Spells key v line ↔ keyValue? line = some (key, v) := by
  refine ⟨?_, spells_of_keyValue? single⟩
  rintro ⟨form, fits, rfl⟩
  exact keyValue?_line fits

end

end Supervisor
