import ServiceIdl.Proofs.Outcome
import ServiceIdl.Proofs.Resolve.Quiet

/-!
# What computations give and report

`Reporting.Ensures about computation holds` says two things at once of a computation, if it
succeeds: `holds` holds of its value, and `about` of all that it reports. Each way to put
computations together has its rule, so that what is known of the reports of a whole
resolution is read off its parts.
-/

namespace ServiceIdl.Reporting

variable {α β : Type} {about : Report → Prop} {holds : α → Prop} {holdsNext : β → Prop}

/-- If the computation succeeds, `holds` holds of its value, and `about` of its reports. -/
def Ensures (about : Report → Prop) (computation : Reporting α) (holds : α → Prop) : Prop :=
  ∀ a reports, computation = .ok (a, reports) → holds a ∧ ∀ report ∈ reports, about report

namespace Ensures

/-- A value with reports that are known to be about the right things. -/
theorem noting {a : α} {reports : List Report} (known : holds a)
    (each : ∀ report ∈ reports, about report) : Ensures about (noting a reports) holds := by
  intro b others same
  cases same
  exact ⟨known, each⟩

/-- A value with one report. -/
theorem reporting {a : α} {finding : Finding} {span : Span} (known : holds a)
    (found : about ⟨finding, span⟩) :
    Ensures about (Reporting.noting a [⟨finding, span⟩]) holds :=
  noting known (List.forall_mem_singleton.mpr found)

theorem report {finding : Finding} {span : Span} (found : about ⟨finding, span⟩) :
    Ensures about (Reporting.report finding span) fun _ => True :=
  reporting trivial found

theorem pure {a : α} (known : holds a) : Ensures about (pure a) holds :=
  noting known (by simp)

theorem mono {computation : Reporting α} {weaker : α → Prop}
    (ensures : Ensures about computation holds) (implies : ∀ a, holds a → weaker a) :
    Ensures about computation weaker := by
  intro a reports success
  obtain ⟨known, each⟩ := ensures a reports success
  exact ⟨implies a known, each⟩

/-- What the first step ensures is what the next one may rely on. -/
theorem bind {first : Reporting α} {next : α → Reporting β} (ensures : Ensures about first holds)
    (rest : ∀ a, holds a → Ensures about (next a) holdsNext) :
    Ensures about (first >>= next) holdsNext := by
  intro b reports both
  obtain ⟨a, earlier, later, success, success', rfl⟩ := bind_eq_ok_iff.mp both
  obtain ⟨known, front⟩ := ensures a earlier success
  obtain ⟨known', behind⟩ := rest a known b later success'
  exact ⟨known', List.forall_mem_append.mpr ⟨front, behind⟩⟩

/-- What is read off a tree makes no reports. -/
theorem lift {first : Except Defect α} (ensures : Outcome.Ensures first holds) :
    Ensures about (liftM first) holds := by
  intro a reports success
  obtain ⟨read, rfl⟩ := lift_eq_ok_iff.mp success
  exact ⟨ensures a read, List.forall_mem_nil _⟩

/-- What is read off the tree is what the next step may rely on. -/
theorem read {first : Except Defect α} {next : α → Reporting β}
    (ensures : Outcome.Ensures first holds)
    (rest : ∀ a, holds a → Ensures about (next a) holdsNext) :
    Ensures about (liftM first >>= next) holdsNext :=
  (lift ensures).bind rest

/-- What goes on with something read may use where it was read. -/
theorem known {first : Except Defect α} {next : α → Reporting β}
    (rest : ∀ a, first = .ok a → Ensures about (next a) holdsNext) :
    Ensures about (liftM first >>= next) holdsNext :=
  read (fun _ success => success) rest

/-- A read of whose value nothing needs to be known. -/
theorem skip {first : Except Defect α} {next : α → Reporting β}
    (rest : ∀ a, Ensures about (next a) holdsNext) :
    Ensures about (liftM first >>= next) holdsNext :=
  known fun a _ => rest a

/-- Steps over the elements, each of which ensures the property. -/
theorem mapM {f : α → Reporting β} {as : List α}
    (each : ∀ a ∈ as, Ensures about (f a) holdsNext) :
    Ensures about (as.mapM f) fun bs => ∀ b ∈ bs, holdsNext b := by
  intro bs reports success
  obtain ⟨-, values, sources⟩ := mapM_eq_ok success
  constructor
  · intro b member
    obtain ⟨a, present, own, success⟩ := values b member
    exact (each a present b own success).1
  · intro report member
    obtain ⟨a, present, b, own, success, inside⟩ := sources report member
    exact (each a present b own success).2 report inside

end Ensures

end ServiceIdl.Reporting
