import ServiceIdl.Model.Constraint
import ServiceIdl.Model.Diagnostic
import ServiceIdl.Proofs.Resolve.Reporting

/-!
# Reports without errors

Reports are quiet if none of them is an error. `Reporting.QuietIff computation clean`
says when a computation that succeeds is quiet: exactly if `clean` holds. Each way to
put computations together has its rule, so that the condition for a whole resolution
is read off its parts. Whether a computation succeeds at all is left open here.
-/

namespace ServiceIdl

/-- None of the reports is an error. -/
def Quiet (reports : List Report) : Prop :=
  ∀ report ∈ reports, report.finding.code.severity ≠ .error

theorem quiet_nil : Quiet [] := by simp [Quiet]

/-- Reports in a row are quiet when both parts are. -/
theorem quiet_append {earlier later : List Report} :
    Quiet (earlier ++ later) ↔ Quiet earlier ∧ Quiet later := by
  simp [Quiet, or_imp, forall_and]

theorem quiet_singleton {report : Report} :
    Quiet [report] ↔ report.finding.code.severity ≠ .error := by
  simp [Quiet]

theorem quiet_flatMap {α : Type} {as : List α} {f : α → List Report} :
    Quiet (as.flatMap f) ↔ ∀ a ∈ as, Quiet (f a) := by
  constructor
  · intro quiet a member report present
    exact quiet report (List.mem_flatMap.mpr ⟨a, member, present⟩)
  · intro each report present
    obtain ⟨a, member, inside⟩ := List.mem_flatMap.mp present
    exact each a member report inside

/-- A trait that is no restriction is no error. -/
theorem Constraint.quiet_reports (traits : List Trait) : Quiet (Constraint.reports traits) := by
  intro report member
  obtain ⟨t, -, found⟩ := List.mem_filterMap.mp member
  unfold Constraint.report? at found
  split at found
  · cases found
    intro severe
    cases severe
  · cases found

namespace Log

variable {path : String} {lines : LineIndex}

/-- A log keeps the diagnostic of every report, though equal ones only once. -/
theorem mem_entries_insertReports {log : Log} {reports : List Report} {d : Diagnostic} :
    d ∈ (log.insertReports path lines reports).entries ↔
      d ∈ log.entries ∨ ∃ report ∈ reports, d = .ofReport path lines report := by
  induction reports generalizing log with
  | nil => simp [insertReports]
  | cons report rest ih =>
    have step : log.insertReports path lines (report :: rest) =
        (log.insert (.ofReport path lines report)).insertReports path lines rest := rfl
    rw [step, ih, mem_entries_insert, or_assoc]
    simp only [List.mem_cons, exists_eq_or_imp]

/-- The log of reports has no error exactly if none of them is an error. -/
theorem forall_severity_ne_error_iff {reports : List Report} :
    (∀ d ∈ (empty.insertReports path lines reports).entries, d.severity ≠ .error) ↔
      Quiet reports := by
  constructor
  · intro none report member
    exact none (.ofReport path lines report)
      (mem_entries_insertReports.mpr (.inr ⟨report, member, rfl⟩))
  · intro quiet d kept
    rcases mem_entries_insertReports.mp kept with old | ⟨report, member, rfl⟩
    · cases old
    · exact quiet report member

end Log

namespace Reporting

variable {α β : Type}

/-- Wherever the computation succeeds, it reports no error exactly if `clean` holds. -/
def QuietIff (computation : Reporting α) (clean : Prop) : Prop :=
  ∀ a reports, computation = .ok (a, reports) → (Quiet reports ↔ clean)

theorem lift_eq_ok_iff {read : Except Defect α} {a : α} {reports : List Report} :
    (liftM read : Reporting α) = .ok (a, reports) ↔ read = .ok a ∧ reports = [] := by
  cases read with
  | error defect =>
    constructor
    · intro same
      cases same
    · intro ⟨same, _⟩
      cases same
  | ok value =>
    constructor
    · intro same
      cases same
      exact ⟨rfl, rfl⟩
    · intro both
      rcases both with ⟨same, rfl⟩
      cases same
      rfl

/-- What is read off a tree first makes no reports of its own. -/
theorem read_bind_eq_ok_iff {read : Except Defect α} {next : α → Reporting β} {b : β}
    {reports : List Report} :
    (liftM read >>= next) = .ok (b, reports) ↔ ∃ a, read = .ok a ∧ next a = .ok (b, reports) := by
  constructor
  · intro both
    obtain ⟨a, earlier, later, success, rest, rfl⟩ := bind_eq_ok_iff.mp both
    obtain ⟨readOk, rfl⟩ := lift_eq_ok_iff.mp success
    exact ⟨a, readOk, rest⟩
  · intro read
    rcases read with ⟨a, readOk, rest⟩
    exact bind_eq_ok_iff.mpr ⟨a, [], reports, lift_eq_ok_iff.mpr ⟨readOk, rfl⟩, rest, rfl⟩

namespace QuietIff

/-- A value with reports that are known to be quiet or not. -/
theorem noting {a : α} {reports : List Report} {clean : Prop} (agrees : Quiet reports ↔ clean) :
    QuietIff (noting a reports) clean := by
  intro b others same
  cases same
  exact agrees

theorem pure {a : α} : QuietIff (pure a) True := by
  intro b reports same
  cases same
  exact iff_true_intro quiet_nil

theorem lift {read : Except Defect α} : QuietIff (liftM read) True := by
  intro a reports same
  obtain ⟨-, rfl⟩ := lift_eq_ok_iff.mp same
  exact iff_true_intro quiet_nil

/-- The condition may be replaced by an equivalent one. -/
theorem congr {computation : Reporting α} {clean other : Prop}
    (quiet : QuietIff computation clean) (same : clean ↔ other) : QuietIff computation other :=
  fun a reports success => (quiet a reports success).trans same

theorem bind {first : Reporting α} {next : α → Reporting β} {clean cleanNext : Prop}
    (quiet : QuietIff first clean)
    (rest : ∀ a reports, first = .ok (a, reports) → QuietIff (next a) cleanNext) :
    QuietIff (first >>= next) (clean ∧ cleanNext) := by
  intro b reports both
  obtain ⟨a, earlier, later, success, success', rfl⟩ := bind_eq_ok_iff.mp both
  exact quiet_append.trans (and_congr (quiet a earlier success)
    (rest a earlier success b later success'))

/-- Nothing is reported by what only uses a value. -/
theorem thenPure {first : Reporting α} {f : α → β} {clean : Prop} (quiet : QuietIff first clean) :
    QuietIff (first >>= fun a => Pure.pure (f a)) clean :=
  (quiet.bind fun _ _ _ => pure).congr (iff_of_eq (and_true clean))

/-- What is read off a tree makes no reports. -/
theorem read {read : Except Defect α} {next : α → Reporting β} {clean : Prop}
    (rest : ∀ a, read = .ok a → QuietIff (next a) clean) :
    QuietIff (liftM read >>= next) clean := by
  intro b reports both
  obtain ⟨a, success, after⟩ := read_bind_eq_ok_iff.mp both
  exact rest a success b reports after

/-- Steps over a list are quiet when each of them is. -/
theorem mapM {f : α → Reporting β} {as : List α} {clean : α → Prop}
    (each : ∀ a ∈ as, QuietIff (f a) (clean a)) :
    QuietIff (as.mapM f) (∀ a ∈ as, clean a) := by
  intro bs reports success
  obtain ⟨whole, -, sources⟩ := mapM_eq_ok success
  constructor
  · intro quiet a member
    obtain ⟨b, own, success, -, inside⟩ := whole a member
    have quietOwn : Quiet own := fun report present => quiet report (inside report present)
    exact (each a member b own success).mp quietOwn
  · intro cleans report present
    obtain ⟨a, member, b, own, success, inside⟩ := sources report present
    exact (each a member b own success).mpr (cleans a member) report inside

end QuietIff

end Reporting

end ServiceIdl
