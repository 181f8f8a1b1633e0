import Supervisor.Proofs.Journal.Inscription
import Supervisor.Proofs.Report.RoundTrip
import Supervisor.Script

/-!
# Reports that nobody can read

An effective fraction may be set to infinity or to what is no number, and then it is written as
null, which is none of the numbers that the reader asks for. Nothing else can go wrong: whatever was
done to a session, its report is read exactly if the fraction set last is finite
(`World.report_readable_iff`).
-/

set_option autoImplicit false
set_option relaxedAutoImplicit false

namespace Supervisor

theorem Json.isSome_single?_ofSingle_iff (x : Number.Single) :
    (Json.ofSingle x).single?.isSome ↔ x.isFinite = true := by
  unfold ofSingle
  split
  next finite => exact iff_of_true (Numeral.inRange_ofSingle finite).isSome_toSingle? finite
  next infinite => exact iff_of_false (by decide) infinite

/-- A report is read exactly if its effective fraction is finite. -/
theorem Report.isSome_read?_text_iff (r : Report) :
    (read? r.text).isSome ↔ r.effectiveFraction.isFinite = true := by
  rw [read?_text, Option.isSome_map, Json.isSome_single?_ofSingle_iff]

namespace World

variable {σ : Type} {control : ProcessControl σ} {w : World σ}

/-- The report of a session is read exactly if no fraction was set since the session started as new,
or the one set last is finite. -/
theorem report_readable_iff (arises : w.Arises control) (h : Handle) :
    (Report.read? (w.session h).report.text).isSome ↔
      ∀ x, lastFraction? h w.journal = some x → x.isFinite = true := by
  rw [Report.isSome_read?_text_iff]
  show (w.session h).effectiveFraction.isFinite = true ↔ _
  rw [arises.fraction_session]
  cases lastFraction? h w.journal with
  | none => exact iff_of_true (by decide) (by simp)
  | some x => simp

/-- A session whose fraction was infinite before it got a finite one. -/
theorem report_readable_of_finite :
    let h := Handle.standalone 0
    let w := (start Settings.standard ({} : Script) ⟨0⟩ Calendar.Timestamp.epoch).performAll
      (Script.host Script.control)
      [.edit h (.setEffectiveFraction ⟨0x7f800000⟩), .edit h (.setEffectiveFraction ⟨0x3f000000⟩)]
    w.Arises Script.control ∧ (Report.read? (w.session h).report.text).isSome := by
  intro h w
  have arises : w.Arises Script.control := Reachable.arises <|
    (reachable_start Script.control _ _ _ _).performAll (Script.host_orderly Script.control) _
  refine ⟨arises, (report_readable_iff arises h).mpr ?_⟩
  rintro x ⟨⟩
  decide

/-- The report of a session whose fraction is infinite is not read. -/
theorem report_of_infinite :
    let h := Handle.standalone 0
    let w := (start Settings.standard ({} : Script) ⟨0⟩ Calendar.Timestamp.epoch).performAll
      (Script.host Script.control) [.edit h (.setEffectiveFraction ⟨0x7f800000⟩)]
    w.Reachable Script.control ∧ Report.read? (w.session h).report.text = none := by
  intro h w
  have reachable : w.Reachable Script.control :=
    (reachable_start Script.control _ _ _ _).performAll (Script.host_orderly Script.control) _
  have infinite : ¬ (Report.read? (w.session h).report.text).isSome := by
    rw [Report.isSome_read?_text_iff]
    decide
  exact ⟨reachable, Option.not_isSome_iff_eq_none.mp infinite⟩

end World

end Supervisor
