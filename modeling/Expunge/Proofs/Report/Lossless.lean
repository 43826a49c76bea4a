import Expunge.Proofs.Report.Readable
import Expunge.Proofs.Run.Capture
import Expunge.Report.Json
import Expunge.Report.Text

/-!
# The JSON summary is lossless

What is written for an outcome, a span, a report and an error tells it from every other one: an
outcome by its tag, what is left out by the key that is missing. As different values have different
texts, a summary can be recovered from its JSON text, but for the contents that its reports keep
(`json_lossless`).
-/

namespace Expunge
set_option autoImplicit false

theorem Outcome.toDatum_inj {o o' : Outcome} : o.toDatum = o'.toDatum ↔ o = o' := by
  cases o <;> cases o' <;> simp [toDatum]

theorem Span.toDatum_inj {s s' : Span} : s.toDatum = s'.toDatum ↔ s = s' := by
  cases s
  cases s'
  simp [toDatum]

theorem FileError.toDatum_inj {e e' : FileError} : e.toDatum = e'.toDatum ↔ e = e' := by
  cases e
  cases e'
  simp [toDatum]

/-- A report is told by what is written for it, but for the contents that it keeps. -/
theorem FileReport.toDatum_inj {r r' : FileReport} :
    r.toDatum = r'.toDatum ↔ r.withoutChange = r'.withoutChange := by
  obtain ⟨file, outcome, intended, spans, change⟩ := r
  obtain ⟨file', outcome', intended', spans', change'⟩ := r'
  have listed : (spans.map Span.toDatum = spans'.map Span.toDatum) ↔ spans = spans' :=
    List.map_inj_right fun _ _ => Span.toDatum_inj.1
  -- the keys of the fields tell which of the two were left out
  cases intended <;> cases intended' <;> cases spans <;> cases spans' <;>
    simp_all [toDatum, withoutChange, Outcome.toDatum_inj]

/-- Functions that take the same for the same make the same lists from the same lists. -/
theorem map_eq_map_of_iff {α β γ : Type} {f : α → β} {g : α → γ} (same : ∀ a b, f a = f b ↔ g a = g b)
    {as bs : List α} : as.map f = bs.map f ↔ as.map g = bs.map g := by
  induction as generalizing bs with
  | nil => cases bs <;> simp
  | cons a as ih => cases bs <;> simp [same, ih]

theorem Summary.toDatum_inj {s s' : Summary} :
    s.toDatum = s'.toDatum ↔ s.withoutChanges = s'.withoutChanges := by
  have reports : s.reports.map FileReport.toDatum = s'.reports.map FileReport.toDatum ↔
      s.reports.map FileReport.withoutChange = s'.reports.map FileReport.withoutChange :=
    map_eq_map_of_iff fun _ _ => FileReport.toDatum_inj
  have errors : s.errors.map FileError.toDatum = s'.errors.map FileError.toDatum ↔
      s.errors = s'.errors := List.map_inj_right fun _ _ => FileError.toDatum_inj.1
  simp [toDatum, withoutChanges, UInt64.toNat_inj, reports, errors]

/-- **The JSON summary is lossless**: two summaries are printed as the same text exactly if they are
the same but for the contents that their reports keep. -/
theorem json_lossless (s s' : Summary) :
    line s.toJson = line s'.toJson ↔ s.withoutChanges = s'.withoutChanges := by
  rw [line, line, String.append_left_inj, Summary.toJson, Summary.toJson, Datum.toText_inj,
    Summary.toDatum_inj]

end Expunge
