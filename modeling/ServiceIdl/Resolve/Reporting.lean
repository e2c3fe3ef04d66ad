import ServiceIdl.Model.Finding
import ServiceIdl.Syntax.View

/-!
# Resolving with reports

A computation that reads a tree may meet a defect, which ends it, and may report
findings, which do not. Reports are only collected: no computation sees those of
an earlier one.
-/

namespace ServiceIdl

/-- A value with the reports made on the way, unless the tree has a defect. -/
def Reporting (α : Type) : Type := Except Defect (α × List Report)

namespace Reporting

variable {α β : Type}

/-- A value without reports. -/
def value (a : α) : Reporting α := .ok (a, [])

/-- Goes on with the value of a computation; its reports come first. -/
def andThen (first : Reporting α) (next : α → Reporting β) : Reporting β :=
  match first with
  | .error defect => .error defect
  | .ok (a, earlier) =>
    match next a with
    | .error defect => .error defect
    | .ok (b, later) => .ok (b, earlier ++ later)

instance : Monad Reporting where
  pure := value
  bind := andThen

/-- What is read off a tree makes no reports. -/
def ofExcept (read : Except Defect α) : Reporting α :=
  match read with
  | .error defect => .error defect
  | .ok a => value a

instance : MonadLift (Except Defect) Reporting := ⟨ofExcept⟩

/-- A value with reports. -/
def noting (a : α) (reports : List Report) : Reporting α := .ok (a, reports)

/-- Reports a finding. -/
def report (finding : Finding) (span : Span) : Reporting Unit := noting () [⟨finding, span⟩]

/-! ## Laws -/

theorem ok_bind (a : α) (earlier : List Report) (next : α → Reporting β) :
    (show Reporting α from .ok (a, earlier)) >>= next =
      match next a with
      | .error defect => .error defect
      | .ok (b, later) => .ok (b, earlier ++ later) := rfl

/-- A sequence of computations succeeds if both do, and reports in their order. -/
theorem bind_eq_ok_iff {first : Reporting α} {next : α → Reporting β} {b : β}
    {reports : List Report} :
    first >>= next = .ok (b, reports) ↔
      ∃ a earlier later, first = .ok (a, earlier) ∧ next a = .ok (b, later) ∧
        reports = earlier ++ later := by
  cases first with
  | error defect =>
    constructor
    · intro equal
      cases equal
    · rintro ⟨a, earlier, later, equal, -⟩
      cases equal
  | ok outcome =>
    obtain ⟨a, earlier⟩ := outcome
    rw [ok_bind]
    cases follow : next a with
    | error defect =>
      constructor
      · intro equal
        cases equal
      · rintro ⟨a', earlier', later', equal, follow', -⟩
        cases equal
        rw [follow] at follow'
        cases follow'
    | ok outcome =>
      obtain ⟨c, later⟩ := outcome
      constructor
      · intro equal
        cases equal
        exact ⟨a, earlier, later, rfl, follow, rfl⟩
      · rintro ⟨a', earlier', later', equal, follow', rfl⟩
        cases equal
        rw [follow] at follow'
        cases follow'
        rfl

theorem andThen_assoc {γ : Type} (first : Reporting α) (next : α → Reporting β)
    (last : β → Reporting γ) :
    (first.andThen next).andThen last = first.andThen fun a => (next a).andThen last := by
  cases first with
  | error defect => rfl
  | ok outcome =>
    obtain ⟨a, earlier⟩ := outcome
    cases middle : next a with
    | error defect =>
      simp only [andThen, middle]
      rfl
    | ok outcome =>
      obtain ⟨b, later⟩ := outcome
      cases final : last b <;>
        (simp only [andThen, middle, final, List.append_assoc]
         rfl)

theorem value_andThen (a : α) (next : α → Reporting β) : (value a).andThen next = next a := by
  cases outcome : next a <;>
    (simp only [andThen, value, outcome, List.nil_append]
     rfl)

theorem andThen_value (first : Reporting α) : first.andThen value = first := by
  cases first with
  | error defect => rfl
  | ok outcome =>
    obtain ⟨a, earlier⟩ := outcome
    simp only [andThen, value, List.append_nil]
    rfl

instance : LawfulMonad Reporting := .mk' _ andThen_value value_andThen andThen_assoc

end Reporting

end ServiceIdl
