import Supervisor.Proofs.Calendar.RoundTrip
import Supervisor.Proofs.Json.RoundTrip
import Supervisor.Proofs.Report.Fields

/-!
# Reports read back

The text of every report is JSON that says what the report says, and reading it comes down to
reading the effective fraction: all else is found as it was (`Report.read?_text`). So a report is
read back whenever its effective fraction is finite and the number that was written for it stands
for it (`Report.read?_written`).
-/

set_option autoImplicit false
set_option relaxedAutoImplicit false

namespace Supervisor

namespace Json

variable {α : Type}

theorem legible_ofInt (n : ℤ) : Legible (.ofInt n) :=
  .number (Numeral.wellFormed_ofInt n)

theorem legible_ofSingle (x : Number.Single) : Legible (.ofSingle x) := by
  unfold ofSingle
  split
  next finite => exact .number (Numeral.inRange_ofSingle finite).toWellFormed
  next => exact .null

/-- The value of the field is legible, if it has one. -/
def LegibleField (value : Option Json) : Prop :=
  ∀ v ∈ value, v.Legible

theorem LegibleField.some {v : Json} (legible : v.Legible) : LegibleField (some v) := by
  rintro _ ⟨⟩
  exact legible

theorem LegibleField.map {write : α → Json} (legible : ∀ a, (write a).Legible) (x : Option α) :
    LegibleField (x.map write) := by
  intro v known
  obtain ⟨a, -, rfl⟩ := Option.map_eq_some_iff.mp known
  exact legible a

theorem legible_ofFields {fields : List (String × Option Json)}
    (legible : ∀ field ∈ fields, LegibleField field.2) : (ofFields fields).Legible := by
  refine .object (fun member known ↦ ?_) fun member known ↦ ?_
  · obtain ⟨field, -, made⟩ := List.mem_filterMap.mp known
    obtain ⟨v, -, rfl⟩ := Option.map_eq_some_iff.mp made
    rfl
  · obtain ⟨field, listed, made⟩ := List.mem_filterMap.mp known
    obtain ⟨v, filled, rfl⟩ := Option.map_eq_some_iff.mp made
    exact legible field listed v filled

end Json

open Json

theorem Policy.legible_toJson (policy : Policy) : policy.toJson.Legible := by
  cases policy with
  | raw n => exact .object (by simp) (by simpa using legible_ofInt n.toInt)
  | _ => exact .string _

theorem Schedule.legible_toJson (s : Schedule) : s.toJson.Legible := by
  have fields : ∀ field ∈ s.fields, LegibleField field.2 := by
    simp only [Schedule.fields, List.forall_mem_cons]
    exact ⟨.some s.policy.legible_toJson, .some (legible_ofInt _), by simp⟩
  exact legible_ofFields fields

namespace Report

theorem legible_fields (r : Report) : ∀ field ∈ r.fields, LegibleField field.2 := by
  have text (x : Option String) : LegibleField (x.map .ofText) := .map .string x
  have int (n : ℤ) : LegibleField (some (.ofInt n)) := .some (legible_ofInt n)
  have workers : Legible (.array (r.workers.map fun worker ↦ .ofInt worker.number.toNat)) := by
    refine .array fun v known ↦ ?_
    obtain ⟨worker, -, rfl⟩ := List.mem_map.mp known
    exact legible_ofInt _
  simp only [fields, List.forall_mem_cons]
  exact ⟨int _, .map (fun _ ↦ legible_ofInt _) _, .map (fun _ ↦ .string _) _, int _, text _, text _,
    text _, text _, int _, .some (.string _), .some (.string _), .some (.bool _), .some (.bool _),
    int _, .some workers, int _, .some r.schedule.legible_toJson, .some (legible_ofSingle _), text _,
    text _, .some (.string _), by simp⟩

theorem legible_toJson (r : Report) : r.toJson.Legible :=
  legible_ofFields r.legible_fields

theorem nodup_fields (r : Report) : (r.fields.map Prod.fst).Nodup := by
  rw [map_fst_fields]
  decide

section

variable {α : Type} {r : Report} {name : String} {read : Json → Option α}

/-- A field is given by its place. -/
theorem required?_field {v : Json} {a : α} (i : ℕ) (place : r.fields[i]? = some (name, some v))
    (back : read v = some a) : required? (present r.fields) name read = some a :=
  (required?_present r.nodup_fields (List.mem_of_getElem? place) read).trans back

theorem optional?_field {x : Option α} {write : α → Json} (i : ℕ)
    (place : r.fields[i]? = some (name, x.map write)) (filled : ∀ a, (write a).isNull = false)
    (back : ∀ a, read (write a) = some a) : optional? (present r.fields) name read = some x :=
  optional?_present r.nodup_fields (List.mem_of_getElem? place) filled back

end

theorem bind_of_eq {α β : Type} {x : Option α} {a : α} (known : x = some a) (f : α → Option β) :
    x >>= f = f a := by
  rw [known]
  rfl

/-- All of a report is read from its JSON but its effective fraction, which may be read as another
one or not at all. -/
theorem ofJson?_toJson (r : Report) : ofJson? r.toJson =
    (Json.ofSingle r.effectiveFraction).single?.map fun x ↦ { r with effectiveFraction := x } := by
  have int (n : ℤ) : (Json.ofInt n).isNull = false := rfl
  have text (s : String) : (Json.ofText s).isNull = false := rfl
  have word (s : String) : (Json.ofText s).string? = some s := rfl
  have flag (value : Bool) : (Json.bool value).bool? = some value := rfl
  have attached := natBelow?_ofInt r.attachedClients.toNat_lt (le_refl (2 ^ 64))
  have created : required? (present r.fields) "created_at"
      (fun v ↦ v.string?.bind fun s ↦ Calendar.Timestamp.read? s.toList) = some r.createdAt := by
    rw [required?_present r.nodup_fields (List.mem_of_getElem? (i := 20) rfl), word,
      Option.bind_some, String.toList_ofList, Calendar.Timestamp.read?_text]
  refine (bind_of_eq (record?_ofFields fieldNames r.fields) _).trans ?_
  refine (bind_of_eq (required?_field 0 rfl (int16?_ofInt r.id)) _).trans ?_
  refine (bind_of_eq (optional?_field 1 rfl (fun _ ↦ int _) int32?_ofInt) _).trans ?_
  refine (bind_of_eq (optional?_field 2 rfl (fun _ ↦ text _) Role.ofJson?_name) _).trans ?_
  refine (bind_of_eq (required?_field 3 rfl (int32?_ofInt r.protocolVersion)) _).trans ?_
  refine (bind_of_eq (optional?_field 4 rfl text word) _).trans ?_
  refine (bind_of_eq (optional?_field 5 rfl text word) _).trans ?_
  refine (bind_of_eq (optional?_field 6 rfl text word) _).trans ?_
  refine (bind_of_eq (optional?_field 7 rfl text word) _).trans ?_
  refine (bind_of_eq (required?_field 8 rfl (int32?_ofInt r.status)) _).trans ?_
  refine (bind_of_eq (required?_field 9 rfl (word r.statusName)) _).trans ?_
  refine (bind_of_eq (required?_field 10 rfl r.lifecycle.ofJson?_formalName) _).trans ?_
  refine (bind_of_eq (required?_field 11 rfl (flag r.valid)) _).trans ?_
  refine (bind_of_eq (required?_field 12 rfl (flag r.shutdown)) _).trans ?_
  refine (bind_of_eq (required?_field 13 rfl attached) _).trans ?_
  refine (bind_of_eq (required?_field 14 rfl (WorkerId.listOfJson?_map r.workers)) _).trans ?_
  refine (bind_of_eq (required?_field 15 rfl (int32?_ofInt r.inflate)) _).trans ?_
  refine (bind_of_eq (required?_field 16 rfl r.schedule.ofJson?_toJson) _).trans ?_
  have fraction : required? (present r.fields) "frac_eff" single? =
      (Json.ofSingle r.effectiveFraction).single? :=
    required?_present r.nodup_fields (List.mem_of_getElem? (i := 17) rfl) single?
  cases found : (Json.ofSingle r.effectiveFraction).single? with
  | none =>
    rw [found] at fraction
    exact congrArg (Option.bind · _) fraction
  | some x =>
    refine (bind_of_eq (fraction.trans found) _).trans ?_
    refine (bind_of_eq (optional?_field 18 rfl text word) _).trans ?_
    refine (bind_of_eq (optional?_field 19 rfl text word) _).trans ?_
    refine (bind_of_eq created _).trans ?_
    rw [UInt64.ofNat_toNat]
    rfl

/-- To read the text of a report is to read its effective fraction. -/
theorem read?_text (r : Report) : read? r.text =
    (Json.ofSingle r.effectiveFraction).single?.map fun x ↦ { r with effectiveFraction := x } := by
  rw [read?, text, String.toList_ofList, Json.read?_text r.legible_toJson, Option.bind_some,
    ofJson?_toJson]

/-- A report is read back from its text, and written once more it has the same text. That the
decimal which is written for its effective fraction stands for that single is supposed. -/
theorem read?_written {r : Report} (finite : r.effectiveFraction.isFinite = true)
    (exact : (Numeral.ofSingle r.effectiveFraction).toSingle? = some r.effectiveFraction) :
    read? r.text = some r ∧ (read? r.text).map text = some r.text := by
  have fraction : (Json.ofSingle r.effectiveFraction).single? = some r.effectiveFraction := by
    rw [Json.ofSingle, if_pos finite]
    exact exact
  have read : read? r.text = some r := by
    rw [read?_text, fraction]
    rfl
  exact ⟨read, by rw [read, Option.map_some]⟩

/-- Texts with a quote, a backslash, controls and other scripts, a policy by its number, a third for
the fraction, and a year with a sign. -/
theorem read?_written_escaped :
    let r : Report :=
      { Session.report (Session.new Settings.standard Calendar.Timestamp.epoch) with
        pid := some (-1)
        tag := some "a\"b\\c\x01\n"
        client := some "é漢😀"
        workers := [⟨0⟩, ⟨4294967295⟩]
        schedule := ⟨.raw (-7), 3⟩
        effectiveFraction := ⟨0x3eaaaaab⟩
        createdAt := { date := ⟨-44, 2, 29⟩, clock := ⟨23, 59, 60, 1500000⟩ } }
    r.effectiveFraction.isFinite = true ∧
      (Numeral.ofSingle r.effectiveFraction).toSingle? = some r.effectiveFraction ∧
      read? r.text = some r ∧ (read? r.text).map text = some r.text := by
  intro r
  have finite : r.effectiveFraction.isFinite = true := by decide
  have exact : (Numeral.ofSingle r.effectiveFraction).toSingle? = some r.effectiveFraction := by
    decide +kernel
  exact ⟨finite, exact, read?_written finite exact⟩

end Report

end Supervisor
