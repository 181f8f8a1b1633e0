import Supervisor.Calendar.Text
import Supervisor.Proofs.Number.Numeral

/-!
# Timestamps read back

Every timestamp is read from its text (`Timestamp.read?_text`), also the second 60 and years that
are written with a sign. The reader stops a field where the writer did: after its two digits, before
the separator that follows a year, or before the `Z` that follows a fraction. A UTC time is then its
own local reading.
-/

set_option autoImplicit false
set_option relaxedAutoImplicit false

namespace Supervisor.Calendar

open Number

/-! ### Runs of digits -/

theorem length_padded (width n : ℕ) : (padded width n).length = width := by
  induction width generalizing n with
  | zero => rfl
  | succ width ih => rw [padded, List.length_append, ih, List.length_singleton]

theorem isDigit_padded {width n : ℕ} : ∀ c ∈ padded width n, isDigit c = true := by
  induction width generalizing n with
  | zero => simp [padded]
  | succ width ih =>
    intro c known
    rw [padded, List.mem_append, List.mem_singleton] at known
    rcases known with known | rfl
    · exact ih c known
    · exact isDigit_digitChar n

theorem ofDigits_padded {width n : ℕ} (small : n < 10 ^ width) : ofDigits (padded width n) = n := by
  induction width generalizing n with
  | zero =>
    rw [Nat.pow_zero] at small
    rw [padded, ofDigits, List.foldl_nil]
    omega
  | succ width ih =>
    rw [Nat.pow_succ] at small
    rw [padded, ofDigits_append_digitChar, ih (by omega)]
    omega

theorem ofDigits_replicate_append (zeros : ℕ) (ds : List Char) :
    ofDigits (List.replicate zeros '0' ++ ds) = ofDigits ds := by
  induction zeros with
  | zero => rfl
  | succ zeros ih =>
    have zero : digitValue '0' = 0 := by decide
    rw [List.replicate_succ, List.cons_append, ofDigits_cons, ih, zero, Nat.zero_mul, Nat.zero_add]

variable {ds rest : List Char} {most n : ℕ}

theorem takeWhile_take_append (digits : ∀ c ∈ ds, isDigit c = true) (fits : ds.length ≤ most)
    (stops : ds.length = most ∨ ∀ c ∈ rest.head?, isDigit c = false) :
    ((ds ++ rest).take most).takeWhile isDigit = ds := by
  have ends : (rest.take (most - ds.length)).takeWhile isDigit = [] := by
    rcases stops with rfl | other
    · rw [Nat.sub_self, List.take_zero, List.takeWhile_nil]
    · cases rest with
      | nil => simp
      | cons c rest =>
        have other : isDigit c = false := other c rfl
        cases most - ds.length <;> simp [other]
  rw [List.take_append, List.take_of_length_le fits, List.takeWhile_append_of_pos digits, ends,
    List.append_nil]

theorem takeNumber?_append (nonempty : ds ≠ []) (digits : ∀ c ∈ ds, isDigit c = true)
    (small : ofDigits ds < 2 ^ 63) (fits : ds.length ≤ most)
    (stops : ds.length = most ∨ ∀ c ∈ rest.head?, isDigit c = false) :
    takeNumber? most (ds ++ rest) = some (ofDigits ds, rest) := by
  have value : collectBelow? (2 ^ 63) 0 ds = some (ofDigits ds) := by
    rw [collectBelow?_eq (by decide)]
    exact if_pos small
  unfold takeNumber?
  rw [takeWhile_take_append digits fits stops]
  dsimp only
  rw [if_neg (by simpa using nonempty), value, Option.map_some, List.drop_left]

/-! ### Fields -/

theorem isBlank_of_isDigit {c : Char} (digit : isDigit c = true) : Text.isBlank c = false := by
  simp only [isDigit, Bool.and_eq_true, decide_eq_true_eq] at digit
  simp only [Text.isBlank, Bool.or_eq_false_iff, Bool.and_eq_false_iff, decide_eq_false_iff_not,
    beq_eq_false_iff_ne]
  omega

theorem dropBlanks_cons {c : Char} (other : Text.isBlank c = false) (cs : List Char) :
    Text.dropBlanks (c :: cs) = c :: cs := by
  simp [Text.dropBlanks, other]

theorem exists_padded_eq (width n : ℕ) :
    ∃ c ds, padded (width + 1) n = c :: ds ∧ isDigit c = true := by
  have nonempty : padded (width + 1) n ≠ [] := by simp [padded]
  obtain ⟨c, ds, same⟩ := List.exists_cons_of_ne_nil nonempty
  exact ⟨c, ds, same, isDigit_padded c (by rw [same]; exact List.mem_cons_self)⟩

theorem dropBlanks_padded (width n : ℕ) (rest : List Char) :
    Text.dropBlanks (padded (width + 1) n ++ rest) = padded (width + 1) n ++ rest := by
  obtain ⟨c, ds, same, digit⟩ := exists_padded_eq width n
  rw [same, List.cons_append, dropBlanks_cons (isBlank_of_isDigit digit)]

theorem takeField?_padded (small : n < 100) (rest : List Char) :
    takeField? (padded 2 n ++ rest) = some (n, rest) := by
  have value : ofDigits (padded 2 n) = n := ofDigits_padded small
  have length := length_padded 2 n
  rw [takeField?, dropBlanks_padded, takeNumber?_append (by simp [padded]) isDigit_padded (by omega)
    (by omega) (.inl length), value]

theorem skipSeparator?_cons {c : Char} (other : Text.isBlank c = false) (rest : List Char) :
    skipSeparator? c (c :: rest) = some rest := by
  rw [skipSeparator?, dropBlanks_cons other]
  exact if_pos rfl

theorem isDigit_hyphen : ∀ c ∈ ('-' :: rest).head?, isDigit c = false := by
  rintro c ⟨⟩
  decide

theorem takeYear?_digit {c : Char} (digit : isDigit c = true) (cs : List Char) :
    takeYear? (c :: cs) = (takeNumber? 4 (c :: cs)).map fun (n, rest) ↦ ((n : ℤ), rest) := by
  unfold takeYear?
  rw [dropBlanks_cons (isBlank_of_isDigit digit)]
  split
  next same =>
    obtain ⟨rfl, -⟩ := List.cons.inj same
    cases digit
  next same =>
    obtain ⟨rfl, -⟩ := List.cons.inj same
    cases digit
  next => rfl

theorem takeYear?_padded (small : n < 10 ^ 4) (rest : List Char) :
    takeYear? (padded 4 n ++ rest) = some ((n : ℤ), rest) := by
  have value : ofDigits (padded 4 n) = n := ofDigits_padded small
  have length := length_padded 4 n
  have taken : takeNumber? 4 (padded 4 n ++ rest) = some (n, rest) := by
    rw [takeNumber?_append (by simp [padded]) isDigit_padded (by omega) length.le (.inl length),
      value]
  obtain ⟨c, ds, same, digit⟩ := exists_padded_eq 3 n
  rw [same, List.cons_append] at taken ⊢
  rw [takeYear?_digit digit, taken, Option.map_some]

theorem takeNumber?_signed (zeros : ℕ) (small : n < 2 ^ 63) (rest : List Char) :
    takeNumber? (List.replicate zeros '0' ++ digits n ++ '-' :: rest).length
      (List.replicate zeros '0' ++ digits n ++ '-' :: rest) = some (n, '-' :: rest) := by
  have value : ofDigits (List.replicate zeros '0' ++ digits n) = n := by
    rw [ofDigits_replicate_append, ofDigits_digits]
  have digit : ∀ c ∈ List.replicate zeros '0' ++ digits n, isDigit c = true :=
    List.forall_mem_append.mpr ⟨isDigit_zeros zeros, List.all_eq_true.mp (all_isDigit_digits n)⟩
  rw [takeNumber?_append (by simp [digits_ne_nil]) digit (by rwa [value]) (by simp)
    (.inr isDigit_hyphen), value]

theorem takeYear?_yearText {year : ℤ} (first : firstYear ≤ year) (last : year ≤ lastYear)
    (rest : List Char) : takeYear? (yearText year ++ '-' :: rest) = some (year, '-' :: rest) := by
  have small : year.natAbs < 2 ^ 63 := by
    unfold firstYear at first
    unfold lastYear at last
    omega
  unfold yearText
  split
  next plain =>
    obtain ⟨n, rfl⟩ := Int.eq_ofNat_of_zero_le plain.1
    exact takeYear?_padded (by omega) _
  next =>
    have taken := takeNumber?_signed (4 - (digits year.natAbs).length) small rest
    by_cases negative : year < 0
    · rw [if_pos negative]
      refine (congrArg (Option.map _) taken).trans ?_
      have same : -(year.natAbs : ℤ) = year := by omega
      exact congrArg (fun y ↦ some (y, '-' :: rest)) same
    · rw [if_neg negative]
      refine (congrArg (Option.map _) taken).trans ?_
      have same : (year.natAbs : ℤ) = year := by omega
      exact congrArg (fun y ↦ some (y, '-' :: rest)) same

theorem takeDate?_text {d : Date} (known : d.Exists) (rest : List Char) :
    takeDate? (yearText d.year ++ '-' :: (padded 2 d.month ++ '-' :: (padded 2 d.day ++ rest))) =
      some (d, rest) := by
  obtain ⟨first, last, -, month, -, day⟩ := known
  have short : daysInMonth d.year d.month ≤ 31 := by
    unfold daysInMonth
    split
    · split <;> decide
    all_goals decide
  have hyphen : Text.isBlank '-' = false := by decide
  unfold takeDate?
  rw [takeYear?_yearText first last]
  simp only [Option.bind_eq_bind, Option.bind_some]
  rw [skipSeparator?_cons hyphen, Option.bind_some, takeField?_padded (by omega), Option.bind_some,
    skipSeparator?_cons hyphen, Option.bind_some, takeField?_padded (by omega), Option.bind_some]
  rfl

theorem takeFraction?_padded {places : ℕ} (fits : places < 9) (small : n < 10 ^ (places + 1)) :
    takeFraction? ('.' :: padded (places + 1) n ++ ['Z']) =
      some (n * 10 ^ (8 - places), ['Z']) := by
  have length := length_padded (places + 1) n
  have taken : ((padded (places + 1) n ++ ['Z']).take 9).takeWhile isDigit =
      padded (places + 1) n := by
    refine takeWhile_take_append isDigit_padded (by omega) (.inr ?_)
    rintro c ⟨⟩
    decide
  rw [List.cons_append, takeFraction?, taken, if_neg (by simp [padded]), ofDigits_padded small,
    List.drop_left, length, Nat.add_sub_add_right 8 1 places]
  rfl

theorem takeFraction?_text (small : n < 1000000000) :
    takeFraction? (fractionText n ++ ['Z']) = some (n, ['Z']) := by
  unfold fractionText
  split
  next none =>
    rw [none]
    rfl
  split
  next => rw [takeFraction?_padded (by decide) (by omega), show _ * 10 ^ (8 - 2) = n by omega]
  split
  next => rw [takeFraction?_padded (by decide) (by omega), show _ * 10 ^ (8 - 5) = n by omega]
  next => rw [takeFraction?_padded (by decide) (by omega), show _ * 10 ^ (8 - 8) = n by omega]

theorem takeClock?_text {c : Clock} (known : c.Exists) :
    takeClock? (padded 2 c.hour ++ ':' :: (padded 2 c.minute ++ ':' :: (padded 2 c.second ++
      (fractionText c.nanos ++ ['Z'])))) = some (c, ['Z']) := by
  obtain ⟨hour, minute, second, nanos⟩ := known
  have colon : Text.isBlank ':' = false := by decide
  unfold takeClock?
  rw [takeField?_padded (by omega)]
  simp only [Option.bind_eq_bind, Option.bind_some]
  rw [skipSeparator?_cons colon, Option.bind_some, takeField?_padded (by omega), Option.bind_some,
    skipSeparator?_cons colon, Option.bind_some, takeField?_padded (by omega), Option.bind_some,
    takeFraction?_text nanos, Option.bind_some]
  rfl

theorem Timestamp.atOffset?_zero (t : Timestamp) : atOffset? t.date t.clock 0 = some t := by
  obtain ⟨date, ⟨hour, minute, second, nanos⟩, known, known'⟩ := t
  have below : hour < 24 := known'.1
  have within : minute < 60 := known'.2.1
  have hours : ((hour : ℤ) * 60 + minute - 0).toNat / 60 = hour := by omega
  have minutes : ((hour : ℤ) * 60 + minute - 0).toNat % 60 = minute := by omega
  unfold atOffset?
  rw [if_pos ⟨known, known'⟩]
  dsimp only
  rw [if_neg (by omega), if_pos (by omega), hours, minutes]
  exact of?_eq_some ⟨date, _, known, known'⟩

/-- Every timestamp is read from its text. -/
theorem Timestamp.read?_text (t : Timestamp) : read? t.text = some t := by
  unfold read? text
  simp only [List.append_assoc, List.cons_append]
  rw [takeDate?_text t.date_exists]
  simp only [Option.bind_eq_bind, Option.bind_some]
  rw [takeClock?_text t.clock_exists, Option.bind_some]
  exact t.atOffset?_zero

end Supervisor.Calendar
