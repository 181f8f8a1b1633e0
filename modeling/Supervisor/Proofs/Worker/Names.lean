import Mathlib.Data.List.Basic
import Supervisor.Proofs.Number.Numeral
import Supervisor.Proofs.Text.Blank
import Supervisor.Worker.Schedule
import Supervisor.Worker.Signal

/-!
# Names of signals and policies

`signalNames` and `policyNames` are the tables of the names that a text can give. `IsSignal` and
`IsPolicy` say which texts stand for which signal and which policy, by name in any case or by
number, and this is what is read from a text (`Signal.parse?_eq_some_iff`,
`Policy.parse?_eq_some_iff`).
-/

set_option autoImplicit false
set_option relaxedAutoImplicit false

namespace Supervisor

/-! ### Letter case -/

namespace Text

/-- The characters other than `a` to `z` that are plain letters in capitals. -/
def specialCapitals : List (Char × String) := [
  ('\u00df', "SS"), ('\u0131', "I"), ('\u017f', "S"), ('\ufb00', "FF"), ('\ufb01', "FI"),
  ('\ufb02', "FL"), ('\ufb03', "FFI"), ('\ufb04', "FFL"), ('\ufb05', "ST"), ('\ufb06', "ST")]

/-- A text and the same text in capitals, as far as these are plain letters. -/
inductive Capitals : List Char → List Char → Prop
  | nil : Capitals [] []
  | letter {cs ds : List Char} (c : Char) (rest : Capitals cs ds) :
      Capitals (c :: cs) (c.toUpper :: ds)
  | special {c : Char} {s : String} {cs ds : List Char} (known : (c, s) ∈ specialCapitals)
      (rest : Capitals cs ds) : Capitals (c :: cs) (s.toList ++ ds)

variable {c : Char} {cs ds : List Char}

theorem toNat_lt_of_toUpper (plain : c.toUpper.toNat < 128) : c.toNat < 128 := by
  unfold Char.toUpper at plain
  split at plain
  next small =>
    have last : c.toNat ≤ 122 := small.2
    omega
  next => exact plain

theorem capitalForm_of_special {s : String} (known : (c, s) ∈ specialCapitals) :
    capitalForm c = s.toList := by
  have all : ∀ entry ∈ specialCapitals, capitalForm entry.1 = entry.2.toList := by decide
  exact all _ known

theorem capitalForm_of_common (common : c.toNat ∉ specialCapitals.map (·.1.toNat)) :
    capitalForm c = [c.toUpper] := by
  have apart : ∀ n ∈ [0xdf, 0x131, 0x17f, 0xfb00, 0xfb01, 0xfb02, 0xfb03, 0xfb04, 0xfb05, 0xfb06],
      c.toNat ≠ n := fun n known same ↦ common (same ▸ known)
  simp only [List.forall_mem_cons] at apart
  unfold capitalForm
  split <;> simp_all

theorem capitalForm_of_lt (plain : c.toNat < 128) : capitalForm c = [c.toUpper] := by
  refine capitalForm_of_common fun special ↦ ?_
  have all : ∀ n ∈ specialCapitals.map (·.1.toNat), 128 ≤ n := by decide
  exact absurd (all _ special) (Nat.not_le.mpr plain)

theorem capitalForm_cases (c : Char) :
    capitalForm c = [c.toUpper] ∨ ∃ s, (c, s) ∈ specialCapitals := by
  by_cases special : c.toNat ∈ specialCapitals.map (·.1.toNat)
  · obtain ⟨⟨d, s⟩, known, code⟩ := List.mem_map.mp special
    obtain rfl : d = c := Char.toNat_inj.mp code
    exact .inr ⟨s, known⟩
  · exact .inl (capitalForm_of_common special)

theorem capitals_of_capitals (same : capitals cs = ds) : Capitals cs ds := by
  subst same
  induction cs with
  | nil => exact .nil
  | cons c cs ih =>
    rw [capitals, List.flatMap_cons]
    rcases capitalForm_cases c with letter | ⟨s, known⟩
    · rw [letter]
      exact .letter c ih
    · rw [capitalForm_of_special known]
      exact .special known ih

theorem Capitals.eq (written : Capitals cs ds) (plain : ∀ d ∈ ds, d.toNat < 128) :
    capitals cs = ds := by
  induction written with
  | nil => rfl
  | letter c rest ih =>
    rw [capitals, List.flatMap_cons,
      capitalForm_of_lt (toNat_lt_of_toUpper (plain _ List.mem_cons_self))]
    exact congrArg _ (ih fun d known ↦ plain d (List.mem_cons_of_mem _ known))
  | special known rest ih =>
    rw [capitals, List.flatMap_cons, capitalForm_of_special known]
    exact congrArg _ (ih fun d found ↦ plain d (List.mem_append_right _ found))

theorem toUpper_of_isBlank (blank : isBlank c = true) : c.toUpper = c := by
  unfold Char.toUpper
  split
  next small =>
    have first : 97 ≤ c.toNat := small.1
    have last : c.toNat ≤ 122 := small.2
    simp only [isBlank, Bool.or_eq_true, Bool.and_eq_true, beq_iff_eq, decide_eq_true_eq] at blank
    omega
  next => rfl

/-- White space stays what it is in capitals. -/
theorem not_blank_of_capitals (filled : ∀ d ∈ capitals cs, isBlank d = false) :
    ∀ c ∈ cs, isBlank c = false := by
  intro c known
  have all : ∀ entry ∈ specialCapitals, isBlank entry.1 = false := by decide
  by_contra blank
  rw [Bool.not_eq_false] at blank
  rcases capitalForm_cases c with letter | ⟨s, special⟩
  · rw [toUpper_of_isBlank blank] at letter
    have still : c ∈ capitals cs := List.mem_flatMap.mpr ⟨c, known, by simp [letter]⟩
    cases (filled c still).symm.trans blank
  · cases (all _ special).symm.trans blank

theorem not_blank_of_signed {z : ℤ} (signed : Number.Signed cs z) :
    ∀ c ∈ cs, isBlank c = false := by
  have digits {ds : List Char} {n : ℕ} (digits : Number.Digits ds n) :
      ∀ c ∈ ds, isBlank c = false := by
    intro c known
    have digit := (Number.digits_iff.mp digits).1 c known
    simp only [Number.isDigit, Bool.and_eq_true, decide_eq_true_eq] at digit
    simp only [isBlank, Bool.or_eq_false_iff, Bool.and_eq_false_iff, beq_eq_false_iff_ne,
      decide_eq_false_iff_not]
    omega
  cases signed with
  | minus run => exact List.forall_mem_cons.mpr ⟨by decide, digits run⟩
  | unsigned number =>
    cases number with
    | plus run => exact List.forall_mem_cons.mpr ⟨by decide, digits run⟩
    | bare run => exact digits run

/-- What starts with a letter in capitals is no number. -/
theorem not_signed_of_capitals (first : ∀ d ∈ (capitals cs).head?, 65 ≤ d.toNat) (z : ℤ) :
    ¬ Number.Signed cs z := by
  intro signed
  obtain ⟨c, rest, rfl⟩ := List.exists_cons_of_ne_nil signed.ne_nil
  have low := signed.head_le
  have same : c.toUpper = c := by
    unfold Char.toUpper
    refine dif_neg fun small ↦ ?_
    have high : 97 ≤ c.toNat := small.1
    omega
  rw [capitals, List.flatMap_cons, capitalForm_of_lt (by omega), same] at first
  have high := first c rfl
  omega

end Text

/-! ### Signals -/

/-- The names of the standard signals and their numbers. -/
def signalNames : List (String × ℕ) := [
  ("HUP", 1), ("INT", 2), ("QUIT", 3), ("ILL", 4), ("TRAP", 5), ("ABRT", 6), ("BUS", 7), ("FPE", 8),
  ("KILL", 9), ("USR1", 10), ("SEGV", 11), ("USR2", 12), ("PIPE", 13), ("ALRM", 14), ("TERM", 15),
  ("STKFLT", 16), ("CHLD", 17), ("CONT", 18), ("STOP", 19), ("TSTP", 20), ("TTIN", 21),
  ("TTOU", 22), ("URG", 23), ("XCPU", 24), ("XFSZ", 25), ("VTALRM", 26), ("PROF", 27),
  ("WINCH", 28), ("IO", 29), ("PWR", 30), ("SYS", 31)]

/-- The text stands for the signal: its number, or its name in any case, with or without `SIG` in
front. There may be white space around it. -/
inductive IsSignal : List Char → Signal → Prop
  | number {lead word trail : List Char} {s : Signal} (leads : Text.Blank lead)
      (trails : Text.Blank trail) (number : Number.Signed word s.number) :
      IsSignal (lead ++ word ++ trail) s
  | name {lead word trail : List Char} {s : Signal} {name : String} (leads : Text.Blank lead)
      (trails : Text.Blank trail) (known : (name, s.number) ∈ signalNames)
      (cased : Text.Capitals word name.toList ∨
        Text.Capitals word ("SIG".toList ++ name.toList)) :
      IsSignal (lead ++ word ++ trail) s

namespace Signal

theorem mem_signalNames_iff {name : String} {s : Signal} :
    (name, s.number) ∈ signalNames ↔ s.name.toList = "SIG".toList ++ name.toList := by
  obtain ⟨i⟩ := s
  constructor
  · have all : ∀ entry ∈ signalNames, ∀ i : Fin 31, entry.2 = number ⟨i⟩ →
        (Signal.name ⟨i⟩).toList = "SIG".toList ++ entry.1.toList := by decide
    exact fun known ↦ all _ known i rfl
  · have all : ∀ i : Fin 31, ∃ entry ∈ signalNames, entry.2 = number ⟨i⟩ ∧
        (Signal.name ⟨i⟩).toList = "SIG".toList ++ entry.1.toList := by decide
    obtain ⟨⟨known, n⟩, found, rfl, spelt⟩ := all i
    intro same
    obtain rfl : known = name :=
      String.toList_inj.mp (List.append_cancel_left (spelt.symm.trans same))
    exact found

theorem ofName?_eq_some_iff {cs : List Char} {s : Signal} :
    ofName? cs = some s ↔ s.name.toList = cs := by
  constructor
  · intro found
    obtain ⟨i, here, rfl⟩ := Option.map_eq_some_iff.mp found
    exact of_decide_eq_true (List.findFinIdx?_eq_some_iff.mp here).1
  · rintro rfl
    have all : ∀ i : Fin 31, ofName? (Signal.name ⟨i⟩).toList = some ⟨i⟩ := by decide
    exact all s.index

theorem ofNumber?_eq_some_iff {n : ℤ} {s : Signal} : ofNumber? n = some s ↔ n = s.number := by
  constructor
  · intro found
    unfold ofNumber? at found
    split at found
    · cases found
      simp only [number]
      omega
    · cases found
  · rintro rfl
    exact s.ofNumber?_number

variable {word : List Char} {s : Signal} {name : String}

/-- A name in capitals has no white space and starts with a letter. -/
theorem capitals_of_name {n : ℕ} (known : (name, n) ∈ signalNames)
    (cased : Text.Capitals word name.toList ∨ Text.Capitals word ("SIG".toList ++ name.toList)) :
    (∀ d ∈ Text.capitals word, Text.isBlank d = false) ∧
      ∀ d ∈ (Text.capitals word).head?, 65 ≤ d.toNat := by
  have all : ∀ entry ∈ signalNames, ∀ ds ∈ [entry.1.toList, "SIG".toList ++ entry.1.toList],
      ds.all (·.toNat < 128) ∧ ds.all (Text.isBlank · = false) ∧
        ds.head?.all (65 ≤ ·.toNat) := by decide
  simp only [List.all_eq_true, Option.all_eq_true, decide_eq_true_eq] at all
  rcases cased with cased | cased
  · obtain ⟨plain, rest⟩ := all _ known _ List.mem_cons_self
    rwa [cased.eq plain]
  · obtain ⟨plain, rest⟩ := all _ known _ (List.mem_cons_of_mem _ List.mem_cons_self)
    rwa [cased.eq plain]

/-- A word in capitals names the signal that its name is the longer name of. -/
theorem exists_name_iff : (∃ name, (name, s.number) ∈ signalNames ∧
      (Text.Capitals word name.toList ∨ Text.Capitals word ("SIG".toList ++ name.toList))) ↔
    ofName? (if ['S', 'I', 'G'].isPrefixOf (Text.capitals word) then Text.capitals word
      else ['S', 'I', 'G'] ++ Text.capitals word) = some s := by
  rw [ofName?_eq_some_iff]
  constructor
  · rintro ⟨name, known, cased⟩
    have spelt := mem_signalNames_iff.mp known
    have all : ∀ entry ∈ signalNames, ("SIG".toList ++ entry.1.toList).all (·.toNat < 128) ∧
      ¬ ['S', 'I', 'G'].isPrefixOf entry.1.toList := by decide
    simp only [List.all_eq_true, decide_eq_true_eq] at all
    obtain ⟨plain, short⟩ := all _ known
    rcases cased with cased | cased
    · rw [cased.eq fun d found ↦ plain d (List.mem_append_right _ found), if_neg short]
      exact spelt
    · rw [cased.eq plain, if_pos (by simp)]
      exact spelt
  · intro spelt
    split at spelt
    next long =>
      obtain ⟨rest, whole⟩ := List.isPrefixOf_iff_prefix.mp long
      rw [← whole] at spelt
      refine ⟨String.ofList rest, mem_signalNames_iff.mpr ?_, .inr ?_⟩
      · rw [@String.toList_ofList rest]
        exact spelt
      · rw [@String.toList_ofList rest]
        exact Text.capitals_of_capitals whole.symm
    next =>
      refine ⟨String.ofList (Text.capitals word), mem_signalNames_iff.mpr ?_, .inl ?_⟩
      · rw [@String.toList_ofList (Text.capitals word)]
        exact spelt
      · rw [String.toList_ofList]
        exact Text.capitals_of_capitals rfl

theorem parse?_of_number {cs : List Char} {n : Int32}
    (number : Number.readInt32? (Text.trim cs) = some n) : parse? cs = ofNumber? n.toInt := by
  unfold parse?
  dsimp only
  rw [number]

theorem parse?_of_word {cs : List Char} (unread : Number.readInt32? (Text.trim cs) = none) :
    parse? cs = ofName? (if ['S', 'I', 'G'].isPrefixOf (Text.capitals (Text.trim cs)) then
      Text.capitals (Text.trim cs) else ['S', 'I', 'G'] ++ Text.capitals (Text.trim cs)) := by
  unfold parse?
  dsimp only
  rw [unread]

theorem parse?_eq_some_iff {cs : List Char} : parse? cs = some s ↔ IsSignal cs s := by
  constructor
  · intro found
    obtain ⟨-, lead, trail, leads, trails, whole⟩ := Text.trim_eq_iff.mp (rfl : Text.trim cs = _)
    rw [whole]
    cases read : Number.readInt32? (Text.trim cs) with
    | some n =>
      rw [parse?_of_number read, ofNumber?_eq_some_iff] at found
      refine .number leads trails ?_
      rw [← found]
      exact Number.readInt32?_eq_some_iff.mp read
    | none =>
      rw [parse?_of_word read] at found
      obtain ⟨name, known, cased⟩ := exists_name_iff.mpr found
      exact .name leads trails known cased
  · intro written
    cases written with
    | @number lead word trail _ leads trails number =>
      have trimmed := Text.trim_eq_iff.mpr
        ⟨.of_forall (Text.not_blank_of_signed number), lead, trail, leads, trails, rfl⟩
      have small : (Int32.ofInt s.number).toInt = s.number := by
        have bound := s.index.isLt
        rw [Signal.number]
        exact Int32.toInt_ofInt_of_le (by omega) (by omega)
      rw [← small, ← trimmed] at number
      rw [parse?_of_number (Number.readInt32?_eq_some_iff.mpr number)]
      exact ofNumber?_eq_some_iff.mpr small
    | @name lead word trail _ name leads trails known cased =>
      obtain ⟨filled, first⟩ := capitals_of_name known cased
      have trimmed := Text.trim_eq_iff.mpr
        ⟨.of_forall (Text.not_blank_of_capitals filled), lead, trail, leads, trails, rfl⟩
      have unread : Number.readInt32? word = none :=
        Option.eq_none_iff_forall_ne_some.mpr fun n read ↦
          Text.not_signed_of_capitals first n.toInt (Number.readInt32?_eq_some_iff.mp read)
      rw [← trimmed] at unread
      rw [parse?_of_word unread, trimmed]
      exact exists_name_iff.mp ⟨name, known, cased⟩

end Signal

/-! ### Policies -/

/-- The names of the policies that have one. -/
def policyNames : List (String × Policy) := [
  ("other", .other), ("normal", .other), ("fifo", .fifo), ("rr", .roundRobin),
  ("roundrobin", .roundRobin), ("round-robin", .roundRobin)]

/-- The text stands for the policy: a name in any case, or its number. -/
inductive IsPolicy (cs : List Char) : Policy → Prop
  | name {name : String} {p : Policy} (known : (name, p) ∈ policyNames)
      (cased : cs.map Char.toLower = name.toList) : IsPolicy cs p
  | other (number : Number.Signed cs 0) : IsPolicy cs .other
  | fifo (number : Number.Signed cs 1) : IsPolicy cs .fifo
  | roundRobin (number : Number.Signed cs 2) : IsPolicy cs .roundRobin
  | raw {n : Int32} (number : Number.Signed cs n.toInt) (unnamed : n ≠ 0 ∧ n ≠ 1 ∧ n ≠ 2) :
      IsPolicy cs (.raw n)

namespace Policy

variable {cs ds : List Char} {name : String} {p : Policy}

/-- The one character that is a plain letter in small letters only is in none of the names. -/
theorem smalls_eq_iff (plain : ∀ d ∈ ds, d ≠ 'k' ∧ d.toNat < 128) :
    Text.smalls cs = ds ↔ cs.map Char.toLower = ds := by
  have form {c d : Char} (plain : d ≠ 'k' ∧ d.toNat < 128) :
      Text.smallForm c = d ↔ c.toLower = d := by
    unfold Text.smallForm
    split
    next kelvin =>
      obtain rfl : c = '\u212a' := Char.toNat_inj.mp kelvin
      refine iff_of_false plain.1.symm ?_
      rintro rfl
      exact absurd plain.2 (by decide)
    next => rfl
  unfold Text.smalls
  induction cs generalizing ds with
  | nil => rfl
  | cons c cs ih =>
    cases ds with
    | nil => simp
    | cons d ds =>
      obtain ⟨first, rest⟩ := List.forall_mem_cons.mp plain
      simp only [List.map_cons, List.cons.injEq, form first, ih rest]

theorem smalls_of_name (known : (name, p) ∈ policyNames) :
    Text.smalls cs = name.toList ↔ cs.map Char.toLower = name.toList := by
  have all : ∀ entry ∈ policyNames, entry.1.toList.all (fun d ↦ d ≠ 'k' ∧ d.toNat < 128) := by
    decide
  simp only [List.all_eq_true, decide_eq_true_eq] at all
  exact smalls_eq_iff (all _ known)

theorem parse?_of_name (known : (name, p) ∈ policyNames) (cased : Text.smalls cs = name.toList) :
    parse? cs = some p := by
  simp only [policyNames, List.mem_cons, List.not_mem_nil, or_false, Prod.mk.injEq] at known
  obtain ⟨rfl, rfl⟩ | ⟨rfl, rfl⟩ | ⟨rfl, rfl⟩ | ⟨rfl, rfl⟩ | ⟨rfl, rfl⟩ | ⟨rfl, rfl⟩ := known <;>
    simp [parse?, cased]

theorem any_spelt_iff {names : List String} : names.any (·.toList = Text.smalls cs) = true ↔
    ∃ name ∈ names, Text.smalls cs = name.toList := by
  simp only [List.any_eq_true, decide_eq_true_eq, @eq_comm _ (Text.smalls cs)]

theorem parse?_of_unnamed (unnamed : ∀ entry ∈ policyNames, Text.smalls cs ≠ entry.1.toList) :
    parse? cs = (Number.readInt32? cs).map ofNumber := by
  have other {names : List String} (listed : ∀ name ∈ names, name ∈ policyNames.map Prod.fst) :
      ¬ names.any (·.toList = Text.smalls cs) = true := by
    rw [any_spelt_iff]
    rintro ⟨name, known, same⟩
    obtain ⟨entry, found, rfl⟩ := List.mem_map.mp (listed name known)
    exact unnamed entry found same
  unfold parse?
  dsimp only
  rw [if_neg (other (by decide)), if_neg (other (by decide)), if_neg (other (by decide))]

/-- What starts like a number is no name. -/
theorem unnamed_of_signed {z : ℤ} (signed : Number.Signed cs z) :
    ∀ entry ∈ policyNames, Text.smalls cs ≠ entry.1.toList := by
  intro entry known cased
  have all : ∀ entry ∈ policyNames, entry.1.toList.head?.all (65 ≤ ·.toNat) := by decide
  simp only [Option.all_eq_true, decide_eq_true_eq] at all
  obtain ⟨c, rest, rfl⟩ := List.exists_cons_of_ne_nil signed.ne_nil
  have low := signed.head_le
  have same : c.toLower = c := by
    unfold Char.toLower
    refine dif_neg fun large ↦ ?_
    have high : 65 ≤ c.toNat := large.1
    omega
  rw [smalls_of_name known, List.map_cons, same] at cased
  have high := all entry known c (by rw [← cased]; rfl)
  omega

theorem parse?_eq_some_iff : parse? cs = some p ↔ IsPolicy cs p := by
  constructor
  · intro read
    by_cases named : ∃ entry ∈ policyNames, Text.smalls cs = entry.1.toList
    · obtain ⟨⟨name, q⟩, known, cased⟩ := named
      obtain rfl := Option.some.inj ((parse?_of_name known cased).symm.trans read)
      exact .name known ((smalls_of_name known).mp cased)
    · rw [parse?_of_unnamed fun entry known same ↦ named ⟨entry, known, same⟩] at read
      obtain ⟨n, found, rfl⟩ := Option.map_eq_some_iff.mp read
      have number := Number.readInt32?_eq_some_iff.mp found
      unfold ofNumber
      split_ifs with other fifo roundRobin
      · subst other
        exact .other number
      · subst fifo
        exact .fifo number
      · subst roundRobin
        exact .roundRobin number
      · exact .raw number ⟨other, fifo, roundRobin⟩
  · have numbered {n : Int32} (number : Number.Signed cs n.toInt) :
        parse? cs = some (ofNumber n) := by
      rw [parse?_of_unnamed (unnamed_of_signed number), Number.readInt32?_eq_some_iff.mpr number]
      rfl
    intro written
    cases written with
    | name known cased => exact parse?_of_name known ((smalls_of_name known).mpr cased)
    | other number => exact @numbered 0 number
    | fifo number => exact @numbered 1 number
    | roundRobin number => exact @numbered 2 number
    | raw number unnamed =>
      rw [numbered number, ofNumber, if_neg unnamed.1, if_neg unnamed.2.1, if_neg unnamed.2.2]

end Policy

end Supervisor
