import Mathlib.Data.List.TakeWhile
import Supervisor.Json.Reader

/-!
# Numbers and strings of JSON read back

A number is read as far as it goes, so what follows it must not look like more of it
(`Numeral.Stops`); then its text is read as the digits that were written (`takeNumber?_text`). A
string ends at its closing quote whatever follows, and each of its characters is written as one
piece, so the text of every string is read as that string (`takeString?_text`).
-/

set_option autoImplicit false
set_option relaxedAutoImplicit false

namespace Supervisor.Json

open Number (isDigit)

/-! ### Runs of digits -/

/-- A nonempty run of digits. -/
structure DigitRun (ds : List Char) : Prop where
  nonempty : ds ≠ []
  digits : ∀ c ∈ ds, isDigit c = true

theorem takeDigits?_append {ds rest : List Char} (run : DigitRun ds)
    (ends : ∀ c ∈ rest.head?, isDigit c = false) : takeDigits? (ds ++ rest) = some (ds, rest) := by
  have stop : rest.takeWhile isDigit = [] ∧ rest.dropWhile isDigit = rest := by
    cases rest with
    | nil => exact ⟨rfl, rfl⟩
    | cons c rest =>
      have other : isDigit c = false := ends c rfl
      simp [other]
  rw [takeDigits?, List.takeWhile_append_of_pos run.digits, stop.1, List.append_nil,
    List.dropWhile_append_of_pos run.digits, stop.2]
  obtain ⟨c, ds, rfl⟩ := List.exists_cons_of_ne_nil run.nonempty
  rfl

/-! ### Numbers -/

namespace Numeral

/-- Digits before the point without a zero in front, digits after a point, and digits in an
exponent. -/
structure WellFormed (n : Numeral) : Prop where
  whole : DigitRun n.whole
  leading : n.whole.head? = some '0' → n.whole = ['0']
  fraction : ∀ ds ∈ n.fraction, DigitRun ds
  exponent : ∀ e ∈ n.exponent, DigitRun e.digits
  sign : ∀ e ∈ n.exponent, ∀ c ∈ e.sign, c = '+' ∨ c = '-'

/-- What follows is no more of a number. -/
def Stops (rest : List Char) : Prop :=
  ∀ c ∈ rest.head?, isDigit c = false ∧ c ≠ '.' ∧ c ≠ 'e' ∧ c ≠ 'E'

def fractionText (fraction : Option (List Char)) : List Char :=
  match fraction with
  | none => []
  | some ds => '.' :: ds

def exponentText (exponent : Option Exponent) : List Char :=
  match exponent with
  | none => []
  | some e => 'e' :: e.sign.toList ++ e.digits

theorem text_eq (n : Numeral) : n.text = (if n.negative then ['-'] else []) ++
    (n.whole ++ (fractionText n.fraction ++ exponentText n.exponent)) := by
  obtain ⟨negative, whole, fraction, exponent⟩ := n
  cases fraction <;> cases exponent <;> simp [text, fractionText, exponentText]

variable {n : Numeral} {rest : List Char}

theorem takeWhole?_append {whole : List Char} (run : DigitRun whole)
    (leading : whole.head? = some '0' → whole = ['0'])
    (ends : ∀ c ∈ rest.head?, isDigit c = false) :
    takeWhole? (whole ++ rest) = some (whole, rest) := by
  by_cases zero : whole.head? = some '0'
  · rw [leading zero]
    rfl
  · rw [← takeDigits?_append run ends]
    obtain ⟨c, ds, rfl⟩ := List.exists_cons_of_ne_nil run.nonempty
    unfold takeWhole?
    split
    next same =>
      obtain ⟨rfl, -⟩ := List.cons.inj same
      exact absurd rfl zero
    next => rfl

theorem takeFraction?_append {fraction : Option (List Char)}
    (run : ∀ ds ∈ fraction, DigitRun ds)
    (ends : ∀ c ∈ rest.head?, isDigit c = false ∧ c ≠ '.') :
    takeFraction? (fractionText fraction ++ rest) = some (fraction, rest) := by
  cases fraction with
  | none =>
    show takeFraction? rest = _
    unfold takeFraction?
    split
    next => exact absurd rfl (ends '.' rfl).2
    next => rfl
  | some ds =>
    show (takeDigits? (ds ++ rest)).map _ = _
    rw [takeDigits?_append (run ds rfl) fun c first ↦ (ends c first).1]
    rfl

theorem takeExponent?_append {exponent : Option Exponent}
    (run : ∀ e ∈ exponent, DigitRun e.digits)
    (sign : ∀ e ∈ exponent, ∀ c ∈ e.sign, c = '+' ∨ c = '-')
    (ends : ∀ c ∈ rest.head?, isDigit c = false ∧ c ≠ 'e' ∧ c ≠ 'E') :
    takeExponent? (exponentText exponent ++ rest) = some (exponent, rest) := by
  cases exponent with
  | none =>
    show takeExponent? rest = _
    cases rest with
    | nil => rfl
    | cons c rest =>
      obtain ⟨-, small, capital⟩ := ends c rfl
      exact if_neg (by simp [small, capital])
  | some e =>
    obtain ⟨mark, ds⟩ := e
    have digits := takeDigits?_append (run _ rfl) fun c first ↦ (ends c first).1
    cases mark with
    | some c =>
      rcases sign _ rfl c rfl with rfl | rfl
      · exact congrArg (Option.map _) digits
      · exact congrArg (Option.map _) digits
    | none =>
      obtain ⟨c, ds, rfl⟩ := List.exists_cons_of_ne_nil (run _ rfl).nonempty
      have digit : isDigit c = true := (run _ rfl).digits c List.mem_cons_self
      have plus : c ≠ '+' := by
        rintro rfl
        cases digit
      have minus : c ≠ '-' := by
        rintro rfl
        cases digit
      show takeExponent? ('e' :: c :: (ds ++ rest)) = _
      simpa [takeExponent?, plus, minus] using digits

/-- What is read after the sign. -/
def takeUnsigned? (negative : Bool) (cs : List Char) : Option (Numeral × List Char) := do
  let (whole, cs) ← takeWhole? cs
  let (fraction, cs) ← takeFraction? cs
  let (exponent, cs) ← takeExponent? cs
  return (⟨negative, whole, fraction, exponent⟩, cs)

theorem takeNumber?_minus (cs : List Char) : takeNumber? ('-' :: cs) = takeUnsigned? true cs :=
  rfl

theorem takeNumber?_of_ne {c : Char} (other : c ≠ '-') (cs : List Char) :
    takeNumber? (c :: cs) = takeUnsigned? false (c :: cs) := by
  simp [takeNumber?, takeUnsigned?, other]

theorem takeUnsigned?_text (wellFormed : n.WellFormed) (stops : Stops rest) :
    takeUnsigned? n.negative (n.whole ++ (fractionText n.fraction ++
      (exponentText n.exponent ++ rest))) = some (n, rest) := by
  have exponent := takeExponent?_append wellFormed.exponent wellFormed.sign
    fun c first ↦ ⟨(stops c first).1, (stops c first).2.2⟩
  have ahead : ∀ c ∈ (exponentText n.exponent ++ rest).head?, isDigit c = false ∧ c ≠ '.' := by
    intro c first
    cases found : n.exponent with
    | none =>
      rw [found] at first
      exact ⟨(stops c first).1, (stops c first).2.1⟩
    | some e =>
      rw [found] at first
      obtain rfl : 'e' = c := Option.some.inj first
      exact ⟨by decide, by decide⟩
  have fraction := takeFraction?_append wellFormed.fraction ahead
  have further : ∀ c ∈ (fractionText n.fraction ++ (exponentText n.exponent ++ rest)).head?,
      isDigit c = false := by
    intro c first
    cases found : n.fraction with
    | none =>
      rw [found] at first
      exact (ahead c first).1
    | some ds =>
      rw [found] at first
      obtain rfl : '.' = c := Option.some.inj first
      decide
  have whole := takeWhole?_append wellFormed.whole wellFormed.leading further
  simp only [takeUnsigned?, whole, fraction, exponent, Option.bind_eq_bind, Option.bind_some]
  rfl

/-- The text of a number is read as that number, unless more of one follows. -/
theorem takeNumber?_text (wellFormed : n.WellFormed) (stops : Stops rest) :
    takeNumber? (n.text ++ rest) = some (n, rest) := by
  have unsigned := takeUnsigned?_text wellFormed stops
  rw [text_eq, List.append_assoc, List.append_assoc, List.append_assoc]
  cases sign : n.negative with
  | true =>
    rw [sign] at unsigned
    exact (takeNumber?_minus _).trans unsigned
  | false =>
    rw [sign] at unsigned
    obtain ⟨c, ds, same⟩ := List.exists_cons_of_ne_nil wellFormed.whole.nonempty
    have digit : isDigit c = true :=
      wellFormed.whole.digits c (by rw [same]; exact List.mem_cons_self)
    have other : c ≠ '-' := by
      rintro rfl
      cases digit
    rw [same] at unsigned ⊢
    exact (takeNumber?_of_ne other _).trans unsigned

end Numeral

/-! ### Strings -/

theorem hexValue?_hexDigit (n : Nat) : hexValue? (Text.hexDigit n) = some (n % 16) := by
  have digit : ∀ d < 16, hexValue? (Text.hexDigit d) = some d := by decide
  have same : Text.hexDigit n = Text.hexDigit (n % 16) := by
    rw [Text.hexDigit, Text.hexDigit, Nat.mod_mod]
  rw [same, digit _ (Nat.mod_lt n (by decide))]

theorem takePieces?_escape {c : Char} {piece : Piece} (known : escape? c = some piece)
    (cs : List Char) : takePieces? ('\\' :: c :: cs) =
      (takePieces? cs).map fun (pieces, rest) ↦ (piece :: pieces, rest) := by
  rw [takePieces?]
  · rw [known]
    cases takePieces? cs <;> rfl
  · rintro a b c' d rest rfl
    cases known

theorem takePieces?_unit (n : Nat) (cs : List Char) :
    takePieces? ('\\' :: 'u' :: '0' :: '0' :: Text.hexDigit (n / 16) :: Text.hexDigit n :: cs) =
      (takePieces? cs).map fun (pieces, rest) ↦ (.unit (n % 256) :: pieces, rest) := by
  have value : 0 * 4096 + 0 * 256 + n / 16 % 16 * 16 + n % 16 = n % 256 := by omega
  have zero : hexValue? '0' = some 0 := by decide
  rw [takePieces?, hexValue?_hexDigit, hexValue?_hexDigit, zero]
  simp only [Option.bind_eq_bind, Option.bind_some, value]
  cases takePieces? cs <;> rfl

theorem takePieces?_char {c : Char} (above : 0x20 ≤ c.toNat) (quote : c ≠ '"')
    (backslash : c ≠ '\\') (cs : List Char) : takePieces? (c :: cs) =
      (takePieces? cs).map fun (pieces, rest) ↦ (.char c :: pieces, rest) := by
  rw [takePieces?]
  · rw [if_neg (not_or_intro (Nat.not_lt_of_le above) backslash)]
  · exact quote
  · exact fun _ _ _ _ _ same _ ↦ backslash same
  · exact fun _ _ same _ ↦ backslash same

theorem charsOf?_unit {n : Nat} (low : n < 0xd800) (pieces : List Piece) :
    charsOf? (.unit n :: pieces) = (charsOf? pieces).map (Char.ofNat n :: ·) := by
  have single : ¬ (0xd800 ≤ n ∧ n < 0xdc00) := by omega
  have single' : ¬ (0xdc00 ≤ n ∧ n < 0xe000) := by omega
  have single'' : ¬ (0xd800 ≤ n ∧ n < 0xe000) := by omega
  cases pieces with
  | nil => simp only [charsOf?, if_neg single'']
  | cons piece pieces =>
    cases piece with
    | char c => simp only [charsOf?, if_neg single'']
    | unit n' => simp only [charsOf?, if_neg single, if_neg single']

/-- The piece is what is read of the character as it is written, and stands for it. -/
structure Piece.Spells (piece : Piece) (c : Char) : Prop where
  read : ∀ cs, takePieces? (escapedChar c ++ cs) =
    (takePieces? cs).map fun (pieces, rest) ↦ (piece :: pieces, rest)
  meant : ∀ pieces, charsOf? (piece :: pieces) = (charsOf? pieces).map (c :: ·)

theorem Piece.Spells.char {c : Char} (read : ∀ cs, takePieces? (escapedChar c ++ cs) =
    (takePieces? cs).map fun (pieces, rest) ↦ (.char c :: pieces, rest)) :
    Piece.Spells (.char c) c :=
  ⟨read, fun pieces ↦ by rw [charsOf?]⟩

theorem exists_spells (c : Char) : ∃ piece : Piece, piece.Spells c := by
  have coded (n : Nat) (same : c.toNat = n) : c = Char.ofNat n := by
    rw [← same, Char.ofNat_toNat]
  by_cases mark : c = '"' ∨ c = '\\'
  · exact ⟨_, .char (by rcases mark with rfl | rfl <;> exact takePieces?_escape rfl)⟩
  by_cases letter : c.toNat = 0x08 ∨ c = '\t' ∨ c = '\n' ∨ c.toNat = 0x0c ∨ c = '\r'
  · refine ⟨_, .char ?_⟩
    rcases letter with same | rfl | rfl | same | rfl
    · exact coded _ same ▸ takePieces?_escape rfl
    · exact takePieces?_escape rfl
    · exact takePieces?_escape rfl
    · exact coded _ same ▸ takePieces?_escape rfl
    · exact takePieces?_escape rfl
  simp only [not_or] at letter
  obtain ⟨backspace, tab, newline, feed, carriage⟩ := letter
  by_cases low : c.toNat < 0x20
  · have written : escapedChar c =
        ['\\', 'u', '0', '0', Text.hexDigit (c.toNat / 16), Text.hexDigit c.toNat] := by
      simp only [escapedChar, mark, backspace, tab, newline, feed, carriage, low, if_true, if_false]
    have value : c.toNat % 256 = c.toNat := Nat.mod_eq_of_lt (by omega)
    refine ⟨.unit c.toNat, fun cs ↦ ?_, fun pieces ↦ ?_⟩
    · rw [written]
      exact (takePieces?_unit c.toNat cs).trans (by rw [value])
    · rw [charsOf?_unit (by omega), Char.ofNat_toNat]
  · have written : escapedChar c = [c] := by
      simp only [escapedChar, mark, backspace, tab, newline, feed, carriage, low, if_false]
    obtain ⟨quote, backslash⟩ := not_or.mp mark
    refine ⟨_, .char fun cs ↦ ?_⟩
    rw [written]
    exact takePieces?_char (Nat.le_of_not_lt low) quote backslash cs

theorem exists_pieces (s rest : List Char) :
    ∃ pieces, takePieces? (s.flatMap escapedChar ++ '"' :: rest) = some (pieces, rest) ∧
      charsOf? pieces = some s := by
  induction s with
  | nil => exact ⟨[], by rw [List.flatMap_nil, List.nil_append, takePieces?], rfl⟩
  | cons c s ih =>
    obtain ⟨pieces, read, meant⟩ := ih
    obtain ⟨piece, spells⟩ := exists_spells c
    refine ⟨piece :: pieces, ?_, ?_⟩
    · rw [List.flatMap_cons, List.append_assoc, spells.read, read]
      rfl
    · rw [spells.meant, meant]
      rfl

/-- The text of a string is read as that string, whatever follows. -/
theorem takeString?_text (s : String) (rest : List Char) :
    takeString? (s.toList.flatMap escapedChar ++ '"' :: rest) = some (some s, rest) := by
  obtain ⟨pieces, read, meant⟩ := exists_pieces s.toList rest
  rw [takeString?, read]
  show some ((charsOf? pieces).map String.ofList, rest) = _
  rw [meant, Option.map_some, String.ofList_toList]

end Supervisor.Json
