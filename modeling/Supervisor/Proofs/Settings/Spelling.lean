import Supervisor.Proofs.Settings.Precedence
import Supervisor.Proofs.Text.Bytes

/-!
# Spellings of one assignment

However an assignment is spelled, it is made: `assignments_line` reads every `Form` of a value for a
key to the same, and `Settings.parse_line` puts this into a text.

Quotes are taken off by characters here. In memory they are taken off by bytes, where a slice may be
out of range or cut a character in two; `unquoteBytes?_eq` says that neither ever happens.
-/

set_option autoImplicit false
set_option relaxedAutoImplicit false

namespace Supervisor

/-! ### Quotes by bytes -/

/-- Takes the first and the last byte off a text that starts and ends with the same quote. -/
def unquoteBytes? (s : String) : Option String :=
  if (['"', '\''].any fun q ↦
      2 ≤ s.utf8ByteSize ∧ s.toList.head? = some q ∧ s.toList.getLast? = some q) then
    sliceBytes? s 1 (s.utf8ByteSize - 1)
  else some s

/-- A quote is a single byte. -/
theorem utf8ByteSize_of_quote {q : Char} (mark : q ∈ ['"', '\'']) :
    (String.ofList [q]).utf8ByteSize = 1 := by
  simp only [List.mem_cons, List.not_mem_nil, or_false] at mark
  rcases mark with rfl | rfl <;> decide

theorem ofList_enclose (q : Char) (inner : List Char) :
    String.ofList (q :: (inner ++ [q])) =
      String.ofList [q] ++ String.ofList inner ++ String.ofList [q] := by
  rw [← String.ofList_append, ← String.ofList_append]
  rfl

theorem enclosed_iff {cs : List Char} :
    Enclosed cs ↔ ∃ q ∈ ['"', '\''], ∃ inner, cs = q :: (inner ++ [q]) := by
  simp [Enclosed, Quotation.write, exists_or]

/-- The test by bytes finds the texts in quotes, a lone quote not among them. -/
theorem bytes_iff_enclosed (cs : List Char) :
    (['"', '\''].any fun q ↦ 2 ≤ (String.ofList cs).utf8ByteSize ∧ cs.head? = some q ∧
      cs.getLast? = some q) = true ↔ Enclosed cs := by
  rw [List.any_eq_true, enclosed_iff]
  constructor
  · rintro ⟨q, mark, found⟩
    obtain ⟨size, first, last⟩ := of_decide_eq_true found
    obtain ⟨rest, rfl⟩ := List.head?_eq_some_iff.mp first
    have wide : rest ≠ [] := by
      rintro rfl
      rw [utf8ByteSize_of_quote mark] at size
      omega
    rw [List.getLast?_cons_of_ne_nil wide] at last
    obtain ⟨inner, rfl⟩ := List.getLast?_eq_some_iff.mp last
    exact ⟨q, mark, inner, rfl⟩
  · rintro ⟨q, mark, inner, rfl⟩
    refine ⟨q, mark, decide_eq_true ⟨?_, rfl, by simp [List.getLast?_cons]⟩⟩
    rw [ofList_enclose, String.utf8ByteSize_append, String.utf8ByteSize_append,
      utf8ByteSize_of_quote mark]
    omega

/-- The slice is always there, and it is what is between the quotes. -/
theorem unquoteBytes?_eq (cs : List Char) :
    unquoteBytes? (String.ofList cs) = some (String.ofList (unquote cs)) := by
  rw [unquoteBytes?, String.toList_ofList]
  by_cases enclosed : Enclosed cs
  · rw [if_pos ((bytes_iff_enclosed cs).mpr enclosed)]
    obtain ⟨q, mark, inner, rfl⟩ := enclosed_iff.mp enclosed
    have size := utf8ByteSize_of_quote mark
    have between : unquote (q :: (inner ++ [q])) = inner := by
      rw [unquote, if_pos ⟨by simpa using mark, by simp⟩, List.dropLast_concat]
    have slice := sliceBytes?_append (String.ofList [q]) (String.ofList inner) (String.ofList [q])
    rw [String.utf8ByteSize_append, size] at slice
    rw [ofList_enclose, between, String.utf8ByteSize_append, String.utf8ByteSize_append, size,
      Nat.add_sub_cancel]
    exact slice
  · rw [if_neg (mt (bytes_iff_enclosed cs).mp enclosed), unquote_of_plain enclosed]

/-! ### One line of a text -/

def Padding.none : Padding :=
  ⟨[], by decide, by decide⟩

/-- A single blank. -/
def Padding.only (c : Char) (blank : Text.isBlank c = true := by decide)
    (single : c ≠ '\n' := by decide) : Padding :=
  ⟨[c], by simpa [Text.Blank] using blank, by simpa using single.symm⟩

/-- Nothing around the key, the sign and the value. -/
def Form.tight (exported : Bool) (quotation : Quotation) : Form :=
  ⟨exported, quotation, .none, .none, .none, .none, .none⟩

section

variable {form : Form} {key : SettingKey} {v : List Char}

theorem feed_not_mem_line (single : '\n' ∉ v) : '\n' ∉ form.line key v := by
  have word : '\n' ∉ exportWord form.exported := by cases form.exported <;> decide
  have written : '\n' ∉ form.quotation.write v := by
    cases form.quotation <;> simp [Quotation.write, single]
  simp [Form.line, word, written, key.feed_not_mem_name, form.lead.single, form.beforeKey.single,
    form.afterKey.single, form.beforeValue.single, form.trail.single]

theorem assignments_line (single : '\n' ∉ v) (fits : form.Fits v) :
    Settings.assignments (form.line key v) = (key.assign? v).toList := by
  rw [Settings.assignments_of_feed_not_mem (feed_not_mem_line single), ofLine?_eq,
    keyValue?_line fits]
  rfl

namespace Settings

/-- An assignment is made where its line stands in the text, if the value is well formed. -/
theorem parse_line (single : '\n' ∉ v) (fits : form.Fits v) (before after : List (List Char)) :
    parse (textOf (before ++ form.line key v :: after)) =
      (after.flatMap assignments).foldl Assignment.apply
        ((key.assign? v).toList.foldl Assignment.apply (parse (textOf before))) := by
  rw [parse_textOf, parse_textOf, List.flatMap_append, List.flatMap_cons, List.foldl_append,
    List.foldl_append, assignments_line single fits]

/-- Every spelling of an assignment does the same to the settings, in any text. One layer of quotes
is taken off, whatever is between them, and none where there is no pair; and by bytes the same is
taken off, with the slice in range and between characters. -/
theorem spellings_agree (single : '\n' ∉ v) (tight : Text.Tight v) (plain : ¬ Enclosed v)
    (form other : Form) (before after : List (List Char)) :
    parse (textOf (before ++ form.line key v :: after)) =
      parse (textOf (before ++ other.line key v :: after)) ∧
    parse (textOf (before ++ form.line key v :: after)) =
      (after.flatMap assignments).foldl Assignment.apply
        ((key.assign? v).toList.foldl Assignment.apply (parse (textOf before))) ∧
    unquote v = v ∧
    (∀ (inner : List Char) (quotation : Quotation), quotation ≠ .bare →
      unquote (quotation.write inner) = inner) ∧
    ∀ cs, unquoteBytes? (String.ofList cs) = some (String.ofList (unquote cs)) := by
  have fits (form : Form) : form.Fits v := fun _ ↦ ⟨tight, plain⟩
  refine ⟨?_, parse_line single (fits form) before after, unquote_of_plain plain,
    fun inner quotation quoted ↦ unquote_write fun bare ↦ absurd bare quoted, unquoteBytes?_eq⟩
  rw [parse_line single (fits form), parse_line single (fits other)]

/-- With and without everything there may be around a value. -/
theorem spellings_agree_signal :
    '\n' ∉ "kill".toList ∧ Text.Tight "kill".toList ∧ ¬ Enclosed "kill".toList ∧
    parse "#\nXPD_TERMINATE_SIGNAL=kill\nXPD_RR_PRIORITY=2" =
      parse "#\n\texport  XPD_TERMINATE_SIGNAL =\u00a0'kill' \nXPD_RR_PRIORITY=2" := by
  have single : '\n' ∉ "kill".toList := by decide
  have tight : Text.Tight "kill".toList :=
    ⟨by rintro c ⟨⟩; decide, by rintro c ⟨⟩; decide⟩
  have plain : ¬ Enclosed "kill".toList := by
    rw [enclosed_iff]
    rintro ⟨q, mark, inner, all⟩
    obtain rfl : 'k' = q := (List.cons.inj all).1
    exact absurd mark (by decide)
  have agree := @spellings_agree .terminateSignal _ single tight plain (.tight false .bare)
    ⟨true, .single, .only '\t', .only ' ', .only ' ', .only '\u00a0', .only ' '⟩
    ["#".toList] ["XPD_RR_PRIORITY=2".toList]
  exact ⟨single, tight, plain, agree.1⟩

end Settings

end

end Supervisor
