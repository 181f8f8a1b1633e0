import Mathlib.Tactic.IntervalCases
import Supervisor.Proofs.Json.Tokens

/-!
# JSON values read back

Reading goes along the text with fuel, and of a value that is `Legible` its whole text is read and
nothing more (`Legible.readBack`). The induction is on how the value was built, for any rest that
does not prolong a number, and with fuel for two calls a character, less one. So the fuel that the
reader starts with is enough, and `read?_text` says that every legible value is read back.
-/

set_option autoImplicit false
set_option relaxedAutoImplicit false

namespace Supervisor.Json

open Number (isDigit)

/-- The text of the value tells what it is: its numbers are well formed, and its strings and keys
have a text. -/
inductive Legible : Json → Prop
  | null : Legible .null
  | bool (value : Bool) : Legible (.bool value)
  | number {n : Numeral} (wellFormed : n.WellFormed) : Legible (.number n)
  | string (s : String) : Legible (.string (some s))
  | array {elements : List Json} (legible : ∀ v ∈ elements, Legible v) : Legible (.array elements)
  | object {members : List (Option String × Json)} (keyed : ∀ member ∈ members, member.1.isSome)
      (legible : ∀ member ∈ members, Legible member.2) : Legible (.object members)

/-- The text of the value is read as that value, and the rest is left. -/
def ReadBack (v : Json) : Prop :=
  ∀ fuel rest, Numeral.Stops rest → 2 * v.text.length ≤ fuel + 1 →
    takeValue? fuel (v.text ++ rest) = some (v, rest)

/-! ### The first character -/

/-- No blank, and not the end of an array. -/
def Begins (c : Char) : Prop :=
  skipBlanks [c] = [c] ∧ c ≠ ']'

theorem skipBlanks_cons {c : Char} (begins : skipBlanks [c] = [c]) (cs : List Char) :
    skipBlanks (c :: cs) = c :: cs := by
  unfold skipBlanks at begins ⊢
  rw [List.dropWhile_cons] at begins ⊢
  split at begins
  · cases begins
  · exact if_neg ‹_›

theorem exists_digit {c : Char} (digit : isDigit c = true) : ∃ d < 10, c = Char.ofNat (48 + d) := by
  simp only [isDigit, Bool.and_eq_true, decide_eq_true_eq] at digit
  refine ⟨c.toNat - 48, by omega, ?_⟩
  rw [Nat.add_sub_cancel' digit.1, Char.ofNat_toNat]

theorem begins_of_isDigit {c : Char} (digit : isDigit c = true) : Begins c := by
  obtain ⟨d, small, rfl⟩ := exists_digit digit
  interval_cases d <;> exact ⟨rfl, by decide⟩

theorem Numeral.WellFormed.begins {n : Numeral} (wellFormed : n.WellFormed) :
    ∃ c cs, n.text = c :: cs ∧ (c = '-' ∨ isDigit c = true) := by
  obtain ⟨c, ds, whole⟩ := List.exists_cons_of_ne_nil wellFormed.whole.nonempty
  have digit : isDigit c = true :=
    wellFormed.whole.digits c (by rw [whole]; exact List.mem_cons_self)
  rw [text_eq]
  cases n.negative with
  | true => exact ⟨'-', _, rfl, .inl rfl⟩
  | false => exact ⟨c, _, by rw [whole]; rfl, .inr digit⟩

theorem Legible.begins {v : Json} (legible : v.Legible) : ∃ c cs, v.text = c :: cs ∧ Begins c := by
  cases legible with
  | null => exact ⟨'n', _, rfl, rfl, by decide⟩
  | bool value => cases value <;> exact ⟨_, _, rfl, rfl, by decide⟩
  | number wellFormed =>
    obtain ⟨c, cs, text, minus | digit⟩ := wellFormed.begins
    · exact ⟨c, cs, text, minus ▸ ⟨rfl, by decide⟩⟩
    · exact ⟨c, cs, text, begins_of_isDigit digit⟩
  | string s => exact ⟨'"', _, rfl, rfl, by decide⟩
  | array => exact ⟨'[', _, rfl, rfl, by decide⟩
  | object => exact ⟨'\x7b', _, rfl, rfl, by decide⟩

/-! ### Values -/

theorem takeValue?_number {c : Char} (first : c = '-' ∨ isDigit c = true) (fuel : Nat)
    (cs : List Char) : takeValue? (fuel + 1) (c :: cs) =
      (takeNumber? (c :: cs)).map fun (n, rest) ↦ (.number n, rest) := by
  rcases first with rfl | digit
  · rfl
  · obtain ⟨d, small, rfl⟩ := exists_digit digit
    interval_cases d <;> rfl

theorem takeValue?_bracket {c : Char} (begins : Begins c) (fuel : Nat) (cs : List Char) :
    takeValue? (fuel + 1) ('[' :: c :: cs) =
      (takeElements? fuel (c :: cs)).map fun (vs, rest) ↦ (.array vs, rest) := by
  rw [takeValue?, skipBlanks_cons rfl]
  simp only [skipBlanks_cons begins.1]
  split
  next same => exact absurd (List.cons.inj same).1 begins.2
  next => rfl

theorem takeValue?_brace (fuel : Nat) (cs : List Char) :
    takeValue? (fuel + 1) ('\x7b' :: '"' :: cs) =
      (takeMembers? fuel ('"' :: cs)).map fun (ms, rest) ↦ (.object ms, rest) :=
  rfl

theorem ReadBack.of_succ {v : Json} (written : 0 < v.text.length)
    (read : ∀ fuel rest, Numeral.Stops rest → 2 * v.text.length ≤ fuel + 2 →
      takeValue? (fuel + 1) (v.text ++ rest) = some (v, rest)) : ReadBack v := by
  intro fuel rest stops enough
  obtain ⟨fuel, rfl⟩ := Nat.exists_eq_add_of_le' (show 1 ≤ fuel by omega)
  exact read fuel rest stops enough

theorem readBack_number {n : Numeral} (wellFormed : n.WellFormed) : ReadBack (.number n) := by
  obtain ⟨c, cs, text, first⟩ := wellFormed.begins
  refine .of_succ (by simp [Json.text, text]) fun fuel rest stops _ ↦ ?_
  have read := Numeral.takeNumber?_text wellFormed stops
  rw [Json.text]
  rw [text, List.cons_append] at read ⊢
  rw [takeValue?_number first, read]
  rfl

theorem readBack_string (s : String) : ReadBack (.string (some s)) := by
  refine .of_succ (by simp [text, stringText]) fun fuel rest _ _ ↦ ?_
  show (takeString? ((s.toList.flatMap escapedChar ++ ['"']) ++ rest)).map _ = _
  rw [List.append_assoc, List.singleton_append, takeString?_text]
  rfl

theorem stops_comma (cs : List Char) : Numeral.Stops (',' :: cs) := by
  rintro c ⟨⟩
  decide

theorem stops_bracket (cs : List Char) : Numeral.Stops (']' :: cs) := by
  rintro c ⟨⟩
  decide

theorem stops_brace (cs : List Char) : Numeral.Stops ('\x7d' :: cs) := by
  rintro c ⟨⟩
  decide

/-! ### Elements and members -/

theorem exists_elementsText_eq (v : Json) (vs : List Json) :
    ∃ tail, elementsText (v :: vs) = v.text ++ tail := by
  cases vs with
  | nil => exact ⟨[], (List.append_nil _).symm⟩
  | cons w ws => exact ⟨',' :: elementsText (w :: ws), rfl⟩

theorem ReadBack.length_pos {v : Json} (back : ReadBack v) : 0 < v.text.length := by
  by_contra blank
  have read := back 0 [] (by simp [Numeral.Stops]) (by omega)
  cases read

theorem takeElements?_text {elements : List Json} (nonempty : elements ≠ [])
    (back : ∀ v ∈ elements, ReadBack v) {fuel : Nat}
    (enough : 2 * (elementsText elements).length ≤ fuel) (rest : List Char) :
    takeElements? fuel (elementsText elements ++ ']' :: rest) = some (elements, rest) := by
  induction elements generalizing fuel with
  | nil => exact absurd rfl nonempty
  | cons v vs ih =>
    have first := back v List.mem_cons_self
    have written := first.length_pos
    cases vs with
    | nil =>
      rw [elementsText] at enough ⊢
      obtain ⟨fuel, rfl⟩ := Nat.exists_eq_add_of_le' (show 1 ≤ fuel by omega)
      rw [takeElements?, first fuel _ (stops_bracket rest) (by omega)]
      rfl
    | cons w ws =>
      have text : elementsText (v :: w :: ws) = v.text ++ ',' :: elementsText (w :: ws) := rfl
      rw [text, List.length_append, List.length_cons] at enough
      rw [text, List.append_assoc, List.cons_append]
      obtain ⟨fuel, rfl⟩ := Nat.exists_eq_add_of_le' (show 1 ≤ fuel by omega)
      rw [takeElements?, first fuel _ (stops_comma _) (by omega)]
      have others := ih (by simp) (fun v known ↦ back v (List.mem_cons_of_mem _ known))
        (show 2 * (elementsText (w :: ws)).length ≤ fuel by omega)
      show (takeElements? fuel _).bind _ = _
      rw [others]
      rfl

/-- A member is read up to what comes after its value. -/
theorem takeMembers?_member {v : Json} (back : ReadBack v) (key : String) {fuel : Nat}
    (enough : 2 * v.text.length ≤ fuel + 1) {rest : List Char} (stops : Numeral.Stops rest) :
    takeMembers? (fuel + 1) (stringText key ++ ':' :: v.text ++ rest) =
      match skipBlanks rest with
      | ',' :: rest => do
        let (ms, rest) ← takeMembers? fuel rest
        return ((some key, v) :: ms, rest)
      | '\x7d' :: rest => some ([(some key, v)], rest)
      | _ => none := by
  have text : stringText key ++ ':' :: v.text ++ rest =
      '"' :: (key.toList.flatMap escapedChar ++ '"' :: ':' :: (v.text ++ rest)) := by
    simp [stringText]
  rw [text, takeMembers?, skipBlanks_cons rfl]
  show Option.bind (takeString? _) _ = _
  rw [takeString?_text]
  show Option.bind (takeValue? fuel (v.text ++ rest)) _ = _
  rw [back fuel rest stops enough]
  rfl

theorem takeMembers?_text {members : List (Option String × Json)} (nonempty : members ≠ [])
    (keyed : ∀ member ∈ members, member.1.isSome) (back : ∀ member ∈ members, ReadBack member.2)
    {fuel : Nat} (enough : 2 * (membersText members).length ≤ fuel) (rest : List Char) :
    takeMembers? fuel (membersText members ++ '\x7d' :: rest) = some (members, rest) := by
  induction members generalizing fuel with
  | nil => exact absurd rfl nonempty
  | cons member members ih =>
    obtain ⟨key, v⟩ := member
    obtain ⟨key, rfl⟩ := Option.isSome_iff_exists.mp (keyed _ List.mem_cons_self)
    have first : ReadBack v := back _ List.mem_cons_self
    have written := first.length_pos
    cases members with
    | nil =>
      rw [membersText, Option.getD_some] at enough ⊢
      rw [List.length_append, List.length_cons] at enough
      obtain ⟨fuel, rfl⟩ := Nat.exists_eq_add_of_le' (show 1 ≤ fuel by omega)
      rw [takeMembers?_member first key (by omega) (stops_brace rest)]
      rfl
    | cons other others =>
      have text : membersText ((some key, v) :: other :: others) =
          stringText key ++ ':' :: v.text ++ ',' :: membersText (other :: others) := rfl
      rw [text] at enough ⊢
      rw [List.length_append, List.length_append, List.length_cons, List.length_cons] at enough
      obtain ⟨fuel, rfl⟩ := Nat.exists_eq_add_of_le' (show 1 ≤ fuel by omega)
      rw [List.append_assoc, List.cons_append,
        takeMembers?_member first key (by omega) (stops_comma _)]
      have more := ih (by simp) (fun m known ↦ keyed m (List.mem_cons_of_mem _ known))
        (fun m known ↦ back m (List.mem_cons_of_mem _ known))
        (show 2 * (membersText (other :: others)).length ≤ fuel by omega)
      show (takeMembers? fuel _).bind _ = _
      rw [more]
      rfl

/-! ### All values -/

theorem Legible.readBack {v : Json} (legible : v.Legible) : ReadBack v := by
  induction legible with
  | null => exact .of_succ (by simp [text]) fun _ _ _ _ ↦ rfl
  | bool value => cases value <;> exact .of_succ (by simp [text]) fun _ _ _ _ ↦ rfl
  | number wellFormed => exact readBack_number wellFormed
  | string s => exact readBack_string s
  | @array elements legible ih =>
    refine .of_succ (by simp [text]) fun fuel rest _ enough ↦ ?_
    simp only [text, List.length_cons, List.length_append, List.length_nil] at enough
    rw [text, List.append_assoc, List.singleton_append]
    cases elements with
    | nil => rfl
    | cons v vs =>
      obtain ⟨c, cs, first, begins⟩ := (legible v List.mem_cons_self).begins
      obtain ⟨tail, starts⟩ := exists_elementsText_eq v vs
      rw [first, List.cons_append] at starts
      have within : 2 * (elementsText (v :: vs)).length ≤ fuel := by omega
      have more := takeElements?_text (by simp) ih within rest
      rw [starts] at more ⊢
      exact (takeValue?_bracket begins fuel _).trans (congrArg (Option.map _) more)
  | @object members keyed _ ih =>
    refine .of_succ (by simp [text]) fun fuel rest _ enough ↦ ?_
    simp only [text, List.length_cons, List.length_append, List.length_nil] at enough
    rw [text, List.append_assoc, List.singleton_append]
    cases members with
    | nil => rfl
    | cons member members =>
      obtain ⟨cs, starts⟩ : ∃ cs, membersText (member :: members) = '"' :: cs := by
        cases members <;> exact ⟨_, rfl⟩
      have within : 2 * (membersText (member :: members)).length ≤ fuel := by omega
      have more := takeMembers?_text (by simp) keyed ih within rest
      rw [starts] at more ⊢
      exact (takeValue?_brace fuel _).trans (congrArg (Option.map _) more)

/-- A value that is legible is read back from its text. -/
theorem read?_text {v : Json} (legible : v.Legible) : read? v.text = some v := by
  have read := legible.readBack (2 * v.text.length + 2) [] (by simp [Numeral.Stops]) (by omega)
  rw [List.append_nil] at read
  rw [read?, read]
  rfl

end Supervisor.Json
