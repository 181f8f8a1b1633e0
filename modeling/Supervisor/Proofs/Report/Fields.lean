import Supervisor.Proofs.Json.Singles
import Supervisor.Report.Reader

/-!
# What is written for a field is read back

Integers, words, schedules and lists of workers are read from what is written for them. A record is
written with those of its fields that have a value, and when no two fields have one name each of
them is found there: one with a value by that value (`required?_present`), and one that may be
missing as what it was (`optional?_present`).
-/

set_option autoImplicit false
set_option relaxedAutoImplicit false

namespace Supervisor

namespace Json

/-! ### Integers -/

namespace Numeral

theorem wellFormed_ofInt (n : ℤ) : (ofInt n).WellFormed where
  whole := digitRun_digits n.natAbs
  leading first := by
    rcases Nat.eq_zero_or_pos n.natAbs with zero | pos
    · show Number.digits n.natAbs = ['0']
      rw [zero, Number.digits]
      rfl
    · exact absurd rfl ((Number.leading_digits pos).first '0' first)
  fraction := by rintro _ ⟨⟩
  exponent := by rintro _ ⟨⟩
  sign := by rintro _ ⟨⟩

theorem toInt?_ofInt {n : ℤ} (low : -2 ^ 63 ≤ n) (high : n < 2 ^ 64) :
    (ofInt n).toInt? = some n := by
  have digits (bound : ℕ) (pos : 0 < bound) (within : n.natAbs < bound) :
      Number.collectBelow? bound 0 (ofInt n).whole = some n.natAbs :=
    (Number.collectBelow?_digits pos).trans (if_pos within)
  have whole : ((ofInt n).fraction.isNone && (ofInt n).exponent.isNone) = true := rfl
  unfold toInt?
  rw [if_pos whole]
  by_cases negative : n < 0
  · have sign : (ofInt n).negative = true := decide_eq_true negative
    obtain ⟨k, rfl⟩ := Int.eq_negSucc_of_lt_zero negative
    rw [if_pos sign, digits _ (by decide) (by omega)]
    rfl
  · have sign : ¬ (ofInt n).negative = true := by simpa [ofInt] using negative
    rw [if_neg sign, digits _ (by decide) (by omega)]
    exact congrArg some (Int.natAbs_of_nonneg (not_lt.mp negative))

end Numeral

theorem int16?_ofInt (n : Int16) : (ofInt n.toInt).int16? = some n := by
  have low := n.le_toInt
  have high := n.toInt_lt
  have read : (ofInt n.toInt).int? = some n.toInt := Numeral.toInt?_ofInt (by omega) (by omega)
  rw [int16?, read, Option.bind_some, Number.int16?, if_pos ⟨low, high⟩, Int16.ofInt_toInt]

theorem int32?_ofInt (n : Int32) : (ofInt n.toInt).int32? = some n := by
  have low := n.le_toInt
  have high := n.toInt_lt
  have read : (ofInt n.toInt).int? = some n.toInt := Numeral.toInt?_ofInt (by omega) (by omega)
  rw [int32?, read, Option.bind_some, Number.int32?, if_pos ⟨low, high⟩, Int32.ofInt_toInt]

theorem natBelow?_ofInt {bound n : ℕ} (below : n < bound) (bits : bound ≤ 2 ^ 64) :
    (ofInt n).natBelow? bound = some n := by
  have read : (ofInt n).int? = some (n : ℤ) := Numeral.toInt?_ofInt (by omega) (by omega)
  rw [natBelow?, read, Option.bind_some, if_pos (by omega), Int.toNat_natCast]

/-! ### Records -/

/-- The object with those of the fields that have a value. -/
def ofFields (fields : List (String × Option Json)) : Json :=
  .object (fields.filterMap fun (name, value) ↦ value.map fun v ↦ (some name, v))

/-- The fields that have a value. -/
def present (fields : List (String × Option Json)) : List (String × Json) :=
  fields.filterMap fun (name, value) ↦ value.map fun v ↦ (name, v)

theorem record?_ofFields (names : List String) (fields : List (String × Option Json)) :
    record? names (ofFields fields) = some (present fields) := by
  show namedMembers? _ = _
  induction fields with
  | nil => rfl
  | cons field fields ih =>
    obtain ⟨name, value⟩ := field
    unfold namedMembers? at ih
    cases value with
    | none => exact ih
    | some v =>
      show List.mapM _ ((some name, v) :: _) = _
      rw [List.mapM_cons, ih]
      rfl

variable {fields : List (String × Option Json)} {name : String} {value : Option Json}

theorem present_cons (name : String) (value : Option Json) (fields : List (String × Option Json)) :
    present ((name, value) :: fields) = (value.map fun v ↦ (name, v)).toList ++ present fields := by
  cases value <;> rfl

theorem filter_present_eq_nil (missing : name ∉ fields.map Prod.fst) :
    (present fields).filter (·.1 = name) = [] := by
  rw [List.filter_eq_nil_iff]
  rintro ⟨other, v⟩ known same
  obtain ⟨⟨first, value⟩, field, made⟩ := List.mem_filterMap.mp known
  obtain ⟨v, rfl, found⟩ := Option.map_eq_some_iff.mp made
  obtain ⟨rfl, rfl⟩ := Prod.mk.inj found
  exact missing (List.mem_map.mpr ⟨_, field, of_decide_eq_true same⟩)

/-- A field is found under its name, with its value if it has one. -/
theorem filter_present (distinct : (fields.map Prod.fst).Nodup) (known : (name, value) ∈ fields) :
    (present fields).filter (·.1 = name) = (value.map fun v ↦ (name, v)).toList := by
  induction fields with
  | nil => cases known
  | cons field fields ih =>
    obtain ⟨first, rest⟩ := List.nodup_cons.mp distinct
    obtain ⟨other, value'⟩ := field
    rw [present_cons, List.filter_append]
    rcases List.mem_cons.mp known with same | later
    · obtain ⟨rfl, rfl⟩ := Prod.mk.injEq .. ▸ same
      rw [filter_present_eq_nil first, List.append_nil]
      cases value <;> simp
    · have ne : other ≠ name := by
        rintro rfl
        exact first (List.mem_map.mpr ⟨_, later, rfl⟩)
      rw [ih rest later]
      cases value' <;> simp [ne]

theorem member?_present (distinct : (fields.map Prod.fst).Nodup) (known : (name, value) ∈ fields) :
    member? name (present fields) = some value := by
  rw [member?, filter_present distinct known]
  cases value <;> rfl

variable {α : Type}

theorem required?_present {v : Json} (distinct : (fields.map Prod.fst).Nodup)
    (known : (name, some v) ∈ fields) (read : Json → Option α) :
    required? (present fields) name read = read v := by
  rw [required?, member?_present distinct known]
  rfl

/-- A field that may be missing is read back whether it has a value or not. -/
theorem optional?_present {x : Option α} {write : α → Json} {read : Json → Option α}
    (distinct : (fields.map Prod.fst).Nodup) (known : (name, x.map write) ∈ fields)
    (filled : ∀ a, (write a).isNull = false) (back : ∀ a, read (write a) = some a) :
    optional? (present fields) name read = some x := by
  rw [optional?, member?_present distinct known]
  cases x with
  | none => rfl
  | some a =>
    show (if (write a).isNull then _ else _) = _
    rw [filled a]
    show Option.bind (read (write a)) _ = _
    rw [back a]
    rfl

end Json

/-! ### Words, schedules and workers -/

theorem Role.ofJson?_name (role : Role) : Role.ofJson? (.ofText role.name) = some role := by
  cases role <;> decide

theorem Lifecycle.ofJson?_formalName (life : Lifecycle) :
    Lifecycle.ofJson? (.ofText life.formalName) = some life := by
  cases life <;> decide

theorem Policy.ofJson?_toJson (policy : Policy) : Policy.ofJson? policy.toJson = some policy := by
  cases policy with
  | raw n => exact congrArg (Option.map _) (Json.int32?_ofInt n)
  | _ => rfl

def Schedule.fields (s : Schedule) : List (String × Option Json) :=
  [("policy", some s.policy.toJson), ("priority", some (.ofInt s.priority.toInt))]

theorem Schedule.ofJson?_toJson (s : Schedule) : Schedule.ofJson? s.toJson = some s := by
  have distinct : (s.fields.map Prod.fst).Nodup := show ["policy", "priority"].Nodup by decide
  have policy : ("policy", some s.policy.toJson) ∈ s.fields := List.mem_cons_self
  have priority : ("priority", some (.ofInt s.priority.toInt)) ∈ s.fields :=
    List.mem_cons_of_mem _ List.mem_cons_self
  have written : s.toJson = Json.ofFields s.fields := rfl
  rw [ofJson?, written, Json.record?_ofFields]
  simp only [Option.bind_eq_bind, Option.bind_some]
  rw [Json.required?_present distinct policy, Policy.ofJson?_toJson, Option.bind_some,
    Json.required?_present distinct priority, Json.int32?_ofInt]
  rfl

theorem WorkerId.listOfJson?_map (workers : List WorkerId) :
    WorkerId.listOfJson? (.array (workers.map fun worker ↦ .ofInt worker.number.toNat)) =
      some workers := by
  show (workers.map _).mapM WorkerId.ofJson? = _
  induction workers with
  | nil => rfl
  | cons worker workers ih =>
    have first : WorkerId.ofJson? (.ofInt worker.number.toNat) = some worker := by
      rw [ofJson?, Json.natBelow?_ofInt worker.number.toNat_lt (by decide), Option.map_some,
        UInt32.ofNat_toNat]
    rw [List.map_cons, List.mapM_cons, first, ih]
    rfl

end Supervisor
