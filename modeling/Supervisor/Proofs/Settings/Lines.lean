import Supervisor.Proofs.Settings.Grammar
import Supervisor.Proofs.Settings.Values

/-!
# What a line assigns

A line makes an assignment when it spells a well-formed value for a key, and then the one that the
value is worth (`ofLine?_eq_some_iff`). `PassedOver` lists why a line makes none: it is a comment,
it has no equality sign, it assigns to no known key, or its value is not well formed. There are no
other reasons (`passedOver_iff`).
-/

set_option autoImplicit false
set_option relaxedAutoImplicit false

namespace Supervisor

variable {key : SettingKey} {v line : List Char} {a : Assignment}

theorem Worth.key_eq (worth : Worth key v a) : a.key = key := by
  cases worth <;> rfl

theorem SettingKey.assign?_eq_none_iff : key.assign? v = none ↔ ∀ a, ¬ Worth key v a := by
  simp only [Option.eq_none_iff_forall_ne_some, ne_eq, assign?_eq_some_iff]

theorem ofLine?_eq_some_iff (single : '\n' ∉ line) :
    Assignment.ofLine? line = some a ↔ ∃ v, Spells a.key v line ∧ Worth a.key v a := by
  rw [ofLine?_eq, Option.bind_eq_some_iff]
  constructor
  · rintro ⟨⟨key, v⟩, found, value⟩
    have worth := SettingKey.assign?_eq_some_iff.mp value
    obtain rfl := worth.key_eq
    exact ⟨v, (spells_iff single).mpr found, worth⟩
  · rintro ⟨v, spelled, worth⟩
    exact ⟨(a.key, v), (spells_iff single).mp spelled, SettingKey.assign?_eq_some_iff.mpr worth⟩

/-- A line spells a value for a key when the key is all that is named before its first equality
sign. -/
theorem exists_spells_iff (single : '\n' ∉ line) : (∃ v, Spells key v line) ↔
    ∃ before after, line = before ++ '=' :: after ∧ '=' ∉ before ∧ Names key before := by
  constructor
  · rintro ⟨v, form, -, rfl⟩
    have sign : Text.isBlank '=' = false := by decide
    have word : '=' ∉ exportWord form.exported := by cases form.exported <;> decide
    refine ⟨_, form.beforeValue.cs ++ form.quotation.write v ++ form.trail.cs, ?_, ?_,
      .written form.exported form.lead form.beforeKey form.afterKey⟩
    · simp only [Form.line, List.append_assoc]
    · simp [form.lead.blank.not_mem sign, form.beforeKey.blank.not_mem sign,
        form.afterKey.blank.not_mem sign, key.sign_not_mem_name, word]
  · rintro ⟨before, after, rfl, -, named⟩
    exact ⟨_, spells_of_names named fun feed ↦ single (by simp [feed])⟩

/-- Why a line makes no assignment. -/
inductive PassedOver : List Char → Prop
  | comment {lead rest : List Char} (blank : Text.Blank lead) : PassedOver (lead ++ '#' :: rest)
  | unsigned {line : List Char} (free : '=' ∉ line) : PassedOver line
  | unknown {before after : List Char} (free : '=' ∉ before) (unnamed : ∀ key, ¬ Names key before) :
      PassedOver (before ++ '=' :: after)
  | malformed {key : SettingKey} {v line : List Char} (spelled : Spells key v line)
      (worthless : ∀ a, ¬ Worth key v a) : PassedOver line

theorem not_spells_comment {lead rest : List Char} (blank : Text.Blank lead) :
    ¬ Spells key v (lead ++ '#' :: rest) := by
  rintro ⟨form, fits, same⟩
  have found : keyValue? (form.line key v) = some (key, v) := keyValue?_line fits
  have mark := Text.head?_trim blank (by decide : Text.isBlank '#' = false) rest
  rw [← same, keyValue?, if_pos mark] at found
  cases found

theorem passedOver_iff (single : '\n' ∉ line) :
    PassedOver line ↔ Assignment.ofLine? line = none := by
  have silent (unspelled : ∀ key v, ¬ Spells key v line) : Assignment.ofLine? line = none :=
    Option.eq_none_iff_forall_ne_some.mpr fun a read ↦ by
      obtain ⟨v, spelled, -⟩ := (ofLine?_eq_some_iff single).mp read
      exact unspelled a.key v spelled
  constructor
  · intro passed
    cases passed with
    | comment blank => exact silent fun key v ↦ not_spells_comment blank
    | unsigned free =>
      refine silent fun key v spelled ↦ ?_
      obtain ⟨before, after, rfl, -, -⟩ := (exists_spells_iff single).mp ⟨v, spelled⟩
      exact free (by simp)
    | unknown free unnamed =>
      refine silent fun key v spelled ↦ ?_
      obtain ⟨before, after, same, free', named⟩ := (exists_spells_iff single).mp ⟨v, spelled⟩
      have split := (splitAtSign?_of_split free).symm.trans
        ((congrArg splitAtSign? same).trans (splitAtSign?_of_split free'))
      obtain rfl := (Prod.ext_iff.mp (Option.some.inj split)).1
      exact unnamed key named
    | malformed spelled worthless =>
      rw [ofLine?_eq, (spells_iff single).mp spelled]
      exact SettingKey.assign?_eq_none_iff.mpr worthless
  · intro none
    by_cases spelled : ∃ key v, Spells key v line
    · obtain ⟨key, v, spelled⟩ := spelled
      refine .malformed spelled fun a worth ↦ ?_
      obtain rfl := worth.key_eq
      cases none.symm.trans ((ofLine?_eq_some_iff single).mpr ⟨v, spelled, worth⟩)
    · by_cases sign : '=' ∈ line
      · obtain ⟨before, after, rfl, free⟩ := List.eq_append_cons_of_mem sign
        refine .unknown free fun key named ↦ spelled ⟨key, ?_⟩
        exact (exists_spells_iff single).mpr ⟨before, after, rfl, free, named⟩
      · exact .unsigned sign

/-- The assignments of some lines, made or passed over one by one. -/
inductive Makes : List (List Char) → List Assignment → Prop
  | nil : Makes [] []
  | made {key : SettingKey} {v line : List Char} {a : Assignment} {lines : List (List Char)}
      {as : List Assignment} (spelled : Spells key v line) (worth : Worth key v a)
      (rest : Makes lines as) : Makes (line :: lines) (a :: as)
  | passed {line : List Char} {lines : List (List Char)} {as : List Assignment}
      (unmade : PassedOver line) (rest : Makes lines as) : Makes (line :: lines) as

theorem makes_iff {lines : List (List Char)} {as : List Assignment}
    (singles : ∀ line ∈ lines, '\n' ∉ line) :
    Makes lines as ↔ lines.filterMap Assignment.ofLine? = as := by
  constructor
  · intro makes
    induction makes with
    | nil => rfl
    | made spelled worth _ ih =>
      obtain ⟨first, rest⟩ := List.forall_mem_cons.mp singles
      obtain rfl := worth.key_eq
      rw [List.filterMap_cons_some ((ofLine?_eq_some_iff first).mpr ⟨_, spelled, worth⟩), ih rest]
    | passed unmade _ ih =>
      obtain ⟨first, rest⟩ := List.forall_mem_cons.mp singles
      rw [List.filterMap_cons_none ((passedOver_iff first).mp unmade), ih rest]
  · rintro rfl
    induction lines with
    | nil => exact .nil
    | cons line lines ih =>
      obtain ⟨first, rest⟩ := List.forall_mem_cons.mp singles
      cases read : Assignment.ofLine? line with
      | none =>
        rw [List.filterMap_cons_none read]
        exact .passed ((passedOver_iff first).mpr read) (ih rest)
      | some a =>
        obtain ⟨v, spelled, worth⟩ := (ofLine?_eq_some_iff first).mp read
        rw [List.filterMap_cons_some read]
        exact .made spelled worth (ih rest)

end Supervisor
