import ServiceIdl.Proofs.Model.Log
import ServiceIdl.Proofs.Resolve.Quiet
import ServiceIdl.Resolve.Member

/-!
# Resolving into a log

The members of a structure can also be resolved with a log at hand that takes each finding
when it is met, and that is still there if a defect ends the walk. The functions here are
those of the resolver, with a log threaded through. What they give does not depend on the
log, and what the log gets does not either (`Collecting.Mirrors`): each of them gives what its
counterpart with reports gives, and leaves the log with those reports put in.
-/

namespace ServiceIdl

/-- A computation that reads a tree and has a log at hand, also when a defect ends it. -/
abbrev Collecting (α : Type) : Type := ExceptT Defect (StateM Log) α

/-- What a computation gives, its reports apart. -/
def Reporting.outcome {α : Type} (computation : Reporting α) : Except Defect α :=
  Except.map Prod.fst computation

/-- Goes on from a value: the reports that came with it do not count. -/
theorem Reporting.outcome_bind_of_ok {α β : Type} {computation : Reporting α}
    {next : α → Reporting β} {a : α} {own : List Report} (success : computation = .ok (a, own)) :
    (computation >>= next).outcome = (next a).outcome := by
  rw [success, Reporting.ok_bind]
  cases next a with
  | error defect => rfl
  | ok outcome => rfl

namespace Collecting

variable {α β : Type} {path : String} {lines : LineIndex}

/-- What a computation gives on a log, and the log after it. -/
def on (collecting : Collecting α) (log : Log) : Except Defect α × Log :=
  collecting.run.run log

/-- Puts the diagnostic of a finding into the log. -/
def report (path : String) (lines : LineIndex) (finding : Finding) (span : Span) :
    Collecting Unit :=
  modify fun log => log.insert (.ofReport path lines ⟨finding, span⟩)

/-- What follows a success goes on with the log it leaves. -/
theorem on_bind_of_ok {collecting : Collecting α} {next : α → Collecting β} {log after : Log}
    {a : α} (ran : collecting.on log = (.ok a, after)) :
    (collecting >>= next).on log = (next a).on after := by
  change (collecting.run.run log : Except Defect α × Log) = _ at ran
  change ((collecting >>= next).run.run log : Except Defect β × Log) = _
  rw [ExceptT.run_bind, StateT.run_bind, ran]
  rfl

/-- A defect ends the computation, and the log stays. -/
theorem on_bind_of_error {collecting : Collecting α} {next : α → Collecting β} {log after : Log}
    {defect : Defect} (ran : collecting.on log = (.error defect, after)) :
    (collecting >>= next).on log = (.error defect, after) := by
  change (collecting.run.run log : Except Defect α × Log) = _ at ran
  change ((collecting >>= next).run.run log : Except Defect β × Log) = _
  rw [ExceptT.run_bind, StateT.run_bind, ran]
  rfl

/-- On every log, the computation gives what the one with reports gives, and puts the same
reports into the log. -/
def Mirrors (path : String) (lines : LineIndex) (collecting : Collecting α)
    (computation : Reporting α) : Prop :=
  ∃ reports,
    (∀ log, collecting.on log = (computation.outcome, log.insertReports path lines reports)) ∧
    ∀ a own, computation = .ok (a, own) → own = reports

namespace Mirrors

theorem pure (a : α) : Mirrors path lines (pure a) (pure a) := by
  refine ⟨[], fun log => rfl, ?_⟩
  intro b own same
  cases same
  rfl

theorem report (finding : Finding) (span : Span) :
    Mirrors path lines (report path lines finding span) (Reporting.report finding span) := by
  refine ⟨[⟨finding, span⟩], fun log => rfl, ?_⟩
  intro b own same
  cases same
  rfl

theorem lift (read : Except Defect α) : Mirrors path lines (liftM read) (liftM read) := by
  refine ⟨[], fun log => ?_, ?_⟩
  · cases read <;> rfl
  · intro a own success
    exact (Reporting.lift_eq_ok_iff.mp success).2

/-- Reports are put into the log in the order of the steps. -/
theorem bind {collecting : Collecting α} {computation : Reporting α} {next : α → Collecting β}
    {rest : α → Reporting β} (first : Mirrors path lines collecting computation)
    (second : ∀ a, Mirrors path lines (next a) (rest a)) :
    Mirrors path lines (collecting >>= next) (computation >>= rest) := by
  obtain ⟨reports, ran, known⟩ := first
  cases form : computation with
  | error defect =>
    rw [form] at ran
    refine ⟨reports, fun log => on_bind_of_error (ran log), ?_⟩
    intro b own success
    cases success
  | ok outcome =>
    rw [form] at ran
    obtain ⟨later, ranNext, knownNext⟩ := second outcome.1
    refine ⟨reports ++ later, fun log => ?_, ?_⟩
    · rw [on_bind_of_ok (ran log), ranNext, Log.insertReports_append]
      rw [Reporting.outcome_bind_of_ok rfl]
    · intro b own success
      obtain ⟨a, earlier, own', same, follow, rfl⟩ := Reporting.bind_eq_ok_iff.mp success
      cases same
      rw [known _ _ form, knownNext b own' follow]

/-- What only uses a value reports nothing. -/
theorem map {collecting : Collecting α} {a : α} {reports : List Report} (f : α → β)
    (noted : Mirrors path lines collecting (Reporting.noting a reports)) :
    Mirrors path lines (collecting >>= fun a => Pure.pure (f a))
      (Reporting.noting (f a) reports) := by
  have same : Reporting.noting (f a) reports =
      Reporting.noting a reports >>= fun a => Pure.pure (f a) := by
    rw [Reporting.noting, Reporting.noting, Reporting.ok_bind]
    exact congrArg (fun all => Except.ok (f a, all)) (List.append_nil reports).symm
  rw [same]
  exact noted.bind fun a => .pure (f a)

theorem mapM {as : List α} {next : α → Collecting β} {rest : α → Reporting β}
    (each : ∀ a, Mirrors path lines (next a) (rest a)) :
    Mirrors path lines (as.mapM next) (as.mapM rest) := by
  induction as with
  | nil => exact .pure []
  | cons a as ih =>
    rw [List.mapM_cons, List.mapM_cons]
    exact (each a).bind fun b => ih.bind fun bs => .pure (b :: bs)

end Mirrors

end Collecting

/-! ## The resolver with a log -/

/-- The scalar of a keyword, which is reported if it has none. -/
def collectScalar (path : String) (lines : LineIndex) (keyword : String) (span : Span) :
    Collecting Scalar :=
  match Scalar.ofKeyword? keyword with
  | some scalar => pure scalar
  | none => do
    Collecting.report path lines (.unsupportedSimpleType keyword) span
    return .string

/-- Reports each trait that is no restriction. -/
def collectUnknown (path : String) (lines : LineIndex) (traits : List Trait) : Collecting Unit :=
  forM traits fun t => do
    if (Constraint.ofTrait? t).isNone then
      Collecting.report path lines (.unknownTrait t.id) t.span

/-- The constraints of traits; those that are no restrictions are reported. -/
def collectRules (path : String) (lines : LineIndex) (traits : List Trait) :
    Collecting (List Constraint) := do
  collectUnknown path lines traits
  return Constraint.ofTraits traits

namespace ShapeIndex

/-- The type of a simple shape. -/
def collectAlias (index : ShapeIndex) (path : String) (lines : LineIndex) (shape : ShapeRecord) :
    Collecting ResolvedType :=
  match shape.simple? with
  | none => pure (.named shape.name)
  | some decl => do
    let keyword ← SimpleShape.typeName decl
    let scalar ← collectScalar path lines keyword.text shape.span
    return .scalar scalar (index.traitsOf shape.name)

/-- The type that an id refers to, which is reported if it is not known. -/
def collectTypeRef (index : ShapeIndex) (path : String) (lines : LineIndex) (id : String)
    (span : Span) : Collecting ResolvedType :=
  match index.typeRef id with
  | .keyword word => do return .scalar (← collectScalar path lines word span) []
  | .wrapper scalar => pure (.scalar scalar [])
  | .alias shape => index.collectAlias path lines shape
  | .expectedPrimitive id => do
    Collecting.report path lines (.unknownPrimitive id) span
    return .scalar .string []
  | .named id => pure (.named id)

/-- The type of an element of a list. -/
def collectElement (index : ShapeIndex) (path : String) (lines : LineIndex)
    (shape : AggregateShape) (element : ShapeMember) : Collecting ResolvedType := do
  let decl ← ShapeMember.decl element
  let own ← Trait.ofStatements (← ShapeMember.traits element)
  match ← index.memberTarget? (AggregateShape.mixins shape) decl with
  | none =>
    let name := (← MemberDecl.name decl).text
    Collecting.report path lines (.unexpectedElision name) element.span
    return ResolvedType.unknown.withTraits own
  | some target =>
    let resolved ← index.collectTypeRef path lines target.id element.span
    return (resolved.withTraits target.inherited).withTraits own

/-- The type of a list, which is that of its first element. -/
def collectList (index : ShapeIndex) (path : String) (lines : LineIndex) (list : ShapeRecord) :
    Collecting ResolvedType := do
  let traits := index.traitsOf list.name
  match list.aggregate? with
  | none => return .unknownArray traits
  | some shape =>
    match ShapeMembers.members (← AggregateShape.members shape) with
    | [] =>
      Collecting.report path lines (.missingListMember list.name) list.span
      return .unknownArray traits
    | element :: _ =>
      let resolved ← index.collectElement path lines shape element
      return { resolved with isArray := true, traits := traits ++ resolved.traits }

/-- The type of a target, through a list if it is one. -/
def collectTarget (index : ShapeIndex) (path : String) (lines : LineIndex) (id : String)
    (span : Span) : Collecting ResolvedType :=
  match index.listRef? id with
  | some list => index.collectList path lines list
  | none => index.collectTypeRef path lines id span

/-- The type of a member with a target of its own or one that is taken over. -/
def collectMemberType (index : ShapeIndex) (path : String) (lines : LineIndex)
    (mixins : Option Mixins) (decl : MemberDecl) (name : String) (span : Span) :
    Collecting ResolvedType := do
  match ← index.memberTarget? mixins decl with
  | none =>
    Collecting.report path lines (.unexpectedElision name) span
    return .unknown
  | some target =>
    return (← index.collectTarget path lines target.id span).withTraits target.inherited

/-- A member of a structure. -/
def collectMember (index : ShapeIndex) (path : String) (lines : LineIndex)
    (mixins : Option Mixins) (member : ShapeMember) : Collecting Member := do
  let decl ← ShapeMember.decl member
  let name := (← MemberDecl.name decl).text
  let own ← Trait.ofStatements (← ShapeMember.traits member)
  let resolved ← index.collectMemberType path lines mixins decl name member.span
  let rules ← collectRules path lines (resolved.traits ++ own)
  return {
    name
    isArray := resolved.isArray
    isPrimitive := resolved.isPrimitive
    typeName := resolved.typeName
    rules
    location := lines.locate member.span }

/-- The members of a model for those of a structure, with their findings put into a log. -/
def collectMembers (index : ShapeIndex) (path : String) (lines : LineIndex)
    (record : ShapeRecord) : Collecting (List Member) :=
  match record.aggregate? with
  | none => pure []
  | some shape => do
    let members := ShapeMembers.members (← AggregateShape.members shape)
    members.mapM (index.collectMember path lines (AggregateShape.mixins shape))

end ShapeIndex

/-! ## Its functions mirror those with reports -/

open Collecting (Mirrors)

variable {index : ShapeIndex} {path : String} {lines : LineIndex}

theorem mirrors_collectScalar (keyword : String) (span : Span) :
    Mirrors path lines (collectScalar path lines keyword span) (scalarOfKeyword keyword span) := by
  unfold collectScalar scalarOfKeyword
  cases Scalar.ofKeyword? keyword with
  | some scalar => exact .pure scalar
  | none => exact Mirrors.map (fun _ => Scalar.string) (.report _ span)

theorem mirrors_collectUnknown (traits : List Trait) :
    Mirrors path lines (collectUnknown path lines traits)
      (.noting () (Constraint.reports traits)) := by
  induction traits with
  | nil => exact .pure ()
  | cons t rest ih =>
    unfold collectUnknown Constraint.reports
    rw [List.forM_cons, List.filterMap_cons, Constraint.report?]
    cases (Constraint.ofTrait? t).isNone with
    | true => exact Mirrors.bind (.report _ t.span) fun _ => ih
    | false => exact Mirrors.bind (.pure ()) fun _ => ih

/-- Collecting constraints reports what is unknown among the traits, each time. -/
theorem mirrors_collectRules (traits : List Trait) :
    Mirrors path lines (collectRules path lines traits)
      (.noting (Constraint.ofTraits traits) (Constraint.reports traits)) :=
  (mirrors_collectUnknown traits).map fun _ => Constraint.ofTraits traits

namespace ShapeIndex

theorem mirrors_collectAlias (shape : ShapeRecord) :
    Mirrors path lines (index.collectAlias path lines shape) (index.resolveAlias shape) := by
  unfold collectAlias resolveAlias
  cases shape.simple? with
  | none => exact .pure _
  | some decl =>
    refine Mirrors.bind (.lift _) fun keyword => ?_
    exact (mirrors_collectScalar _ _).bind fun scalar => .pure _

theorem mirrors_collectTypeRef (id : String) (span : Span) :
    Mirrors path lines (index.collectTypeRef path lines id span)
      (index.resolveTypeRef id span) := by
  unfold collectTypeRef resolveTypeRef
  cases index.typeRef id with
  | keyword word => exact (mirrors_collectScalar word span).bind fun scalar => .pure _
  | wrapper scalar => exact .pure _
  | «alias» shape => exact mirrors_collectAlias shape
  | expectedPrimitive id => exact Mirrors.map (fun _ => _) (.report _ span)
  | named id => exact .pure _

theorem mirrors_collectElement (shape : AggregateShape) (element : ShapeMember) :
    Mirrors path lines (index.collectElement path lines shape element)
      (index.resolveElement shape element) := by
  refine Mirrors.bind (.lift _) fun decl => Mirrors.bind (.lift _) fun statements => ?_
  refine Mirrors.bind (.lift _) fun own => Mirrors.bind (.lift _) fun target => ?_
  cases target with
  | none =>
    exact Mirrors.bind (.lift _) fun name => Mirrors.bind (.report _ _) fun _ => .pure _
  | some target => exact (mirrors_collectTypeRef _ _).bind fun resolved => .pure _

theorem mirrors_collectList (list : ShapeRecord) :
    Mirrors path lines (index.collectList path lines list) (index.resolveList list) := by
  unfold collectList resolveList
  cases list.aggregate? with
  | none => exact .pure _
  | some shape =>
    refine Mirrors.bind (.lift _) fun members => ?_
    cases ShapeMembers.members members with
    | nil => exact Mirrors.bind (.report _ _) fun _ => .pure _
    | cons element _ => exact (mirrors_collectElement shape element).bind fun resolved => .pure _

theorem mirrors_collectTarget (id : String) (span : Span) :
    Mirrors path lines (index.collectTarget path lines id span) (index.resolveTarget id span) := by
  unfold collectTarget resolveTarget
  cases index.listRef? id with
  | some list => exact mirrors_collectList list
  | none => exact mirrors_collectTypeRef id span

theorem mirrors_collectMemberType (mixins : Option Mixins) (decl : MemberDecl) (name : String)
    (span : Span) :
    Mirrors path lines (index.collectMemberType path lines mixins decl name span)
      (index.resolveMemberType mixins decl name span) := by
  refine Mirrors.bind (.lift _) fun target => ?_
  cases target with
  | none => exact Mirrors.map (fun _ => _) (.report _ span)
  | some target => exact (mirrors_collectTarget _ _).bind fun resolved => .pure _

/-- The collector of a member reports what the resolver of it does. -/
theorem mirrors_collectMember (mixins : Option Mixins) (member : ShapeMember) :
    Mirrors path lines (index.collectMember path lines mixins member)
      (index.resolveMember lines mixins member) := by
  refine Mirrors.bind (.lift _) fun decl => Mirrors.bind (.lift _) fun name =>
    Mirrors.bind (.lift _) fun statements => Mirrors.bind (.lift _) fun own => ?_
  refine (mirrors_collectMemberType _ _ _ _).bind fun resolved => ?_
  exact (mirrors_collectRules (resolved.traits ++ own)).map _

theorem mirrors_collectMembers (record : ShapeRecord) :
    Mirrors path lines (index.collectMembers path lines record)
      (index.resolveMembers lines record) := by
  unfold collectMembers resolveMembers
  cases record.aggregate? with
  | none => exact .pure []
  | some shape => exact Mirrors.bind (.lift _) fun members => .mapM (mirrors_collectMember _)

end ShapeIndex

end ServiceIdl
