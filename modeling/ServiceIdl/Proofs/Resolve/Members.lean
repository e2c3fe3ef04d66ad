import ServiceIdl.Proofs.Resolve.Findings
import ServiceIdl.Proofs.Resolve.Rules

/-!
# The members of a model

A model has a property for every member of every structure. So what is known of each member
that is resolved, and of its reports among all, is known of every property of the model
(`ShapeIndex.eachMember_of_resolveModel`).

What comes of a member depends on its name, what it refers to, its traits and its place only
(`ShapeIndex.resolveAs`), wherever these are from. So it can be compared to members that are in
no document, of which there is one for every name, target and place (`ShapeMember.written`).
-/

namespace ServiceIdl

open Reporting (bind_eq_ok_iff read_bind_eq_ok_iff)

/-- The parts of a view are those of its tree. -/
theorem View.required_eq {c c' d : Category} {v : View c} {w : View c'} (same : v.tree = w.tree) :
    v.required d = w.required d := by
  unfold required optional span
  rw [same]

/-- The declaration of an explicit member gives its name, and its own target with nothing
inherited. -/
theorem ShapeMember.Declares.exists_decl {name id : String} {member : ShapeMember}
    (declares : ShapeMember.Declares name member id) (index : ShapeIndex)
    (mixins : Option Mixins) :
    ∃ decl identifier, ShapeMember.decl member = .ok decl ∧
      MemberDecl.name decl = .ok identifier ∧ identifier.text = name ∧
      index.memberTarget? mixins decl = .ok (some ⟨id, []⟩) := by
  obtain ⟨decl, explicit, identifier, target, readDecl, form, readName, named, readTarget, rfl⟩ :=
    declares
  have same : explicit.tree = decl.tree := by
    rw [← MemberDecl.tree_form, form]
    rfl
  refine ⟨decl, identifier, readDecl, (View.required_eq same.symm).trans readName, named, ?_⟩
  unfold ShapeIndex.memberTarget?
  rw [form]
  simp only [readTarget]
  rfl

/-- A member that elides its target still has a name. -/
theorem ShapeMember.Elides.exists_decl {name : String} {member : ShapeMember}
    (elides : ShapeMember.Elides member name) :
    ∃ decl identifier, ShapeMember.decl member = .ok decl ∧
      MemberDecl.name decl = .ok identifier ∧ identifier.text = name := by
  obtain ⟨decl, elided, identifier, readDecl, form, readName, named⟩ := elides
  have same : elided.tree = decl.tree := by
    rw [← MemberDecl.tree_form, form]
    rfl
  exact ⟨decl, identifier, readDecl, (View.required_eq same.symm).trans readName, named⟩

/-! ## Members that are in no document -/

/-- The member `name: id` behind these traits, all in one place. -/
def ShapeMember.written (span : Span) (traits : List TraitApplication) (name id : String) :
    ShapeMember where
  tree := .node .shapeMember span
    [.node .traitStatements span (traits.map View.tree),
      .node .explicitShapeMember span
        [.node .identifier span [.token span name], .node .shapeId span [.token span id]]]
  accepted := List.mem_singleton_self _

/-- A written member declares its target under its name. -/
theorem ShapeMember.declares_written (span : Span) (traits : List TraitApplication)
    (name id : String) :
    ShapeMember.Declares name (ShapeMember.written span traits name id) id := by
  have text (kind : Kind) (word : String) :
      Tree.text (.node kind span [.token span word]) = word := by
    simp [Tree.text, Tree.textOfAll]
  exact ⟨_, _, _, _, rfl, rfl, rfl, text .identifier name, rfl, text .shapeId id⟩

/-- A written member has the traits it was written with. -/
theorem ShapeMember.hasTraits_written (span : Span) {applications : List TraitApplication}
    {traits : List Trait} (read : applications.mapM Trait.ofNode = .ok traits)
    (name id : String) :
    ShapeMember.HasTraits (ShapeMember.written span applications name id) traits := by
  have all : (applications.map View.tree).filterMap (View.of? .traitApplication) =
      applications := by
    have same : (View.of? .traitApplication ∘ View.tree : TraitApplication → _) = some :=
      funext fun _ => View.of?_eq_some_iff.mpr rfl
    rw [List.filterMap_map, same, List.filterMap_some]
  refine ⟨_, rfl, ?_⟩
  change List.mapM Trait.ofNode ((applications.map View.tree).filterMap _) = _
  rw [all]
  exact read

/-! ## Reading members -/

/-- Every member of a document has traits of its own, if only none. -/
theorem ShapeMember.exists_hasTraits {text : List Char} {member : ShapeMember}
    (part : member.tree.IsPart text) : ∃ own, ShapeMember.HasTraits member own := by
  obtain ⟨statements, readPart, partTraits⟩ := View.gives_required part
    (show Category.guarantees _ .traitStatements from by decide)
  obtain ⟨own, readTraits, -⟩ := Trait.succeeds_ofStatements partTraits
  exact ⟨own, statements, readPart, readTraits⟩

/-- The constraints of traits depend on those of each only. -/
theorem Constraint.ofTraits_append_congr (met : List Trait) {traits others : List Trait}
    (same : traits.flatMap Constraint.ofTrait = others.flatMap Constraint.ofTrait) :
    Constraint.ofTraits (met ++ traits) = Constraint.ofTraits (met ++ others) := by
  change ((met ++ traits).flatMap Constraint.ofTrait).eraseDups =
    ((met ++ others).flatMap Constraint.ofTrait).eraseDups
  rw [List.flatMap_append, List.flatMap_append, same]

/-- What can be read goes on with what is read. -/
theorem Reporting.read_bind_of_ok {α β : Type} {read : Except Defect α} {a : α}
    (success : read = .ok a) (next : α → Reporting β) : (do next (← read)) = next a := by
  rw [success]
  exact value_andThen a next

namespace ShapeIndex

variable {text : List Char} {index : ShapeIndex} {lines : LineIndex} {shape : AggregateShape}
  {member : ShapeMember}

/-- A member of a shape of the index is part of the text. -/
theorem HasMember.isPart (holds : index.IsOf text) {category : ShapeCategory}
    (has : index.HasMember category shape member) : member.tree.IsPart text := by
  obtain ⟨record, inside, _, form, ⟨part, read, rfl⟩, present⟩ := has
  have partShape := ShapeDecl.isPart_of_form (holds.isDeclaredIn inside).1.part
    (ShapeRecord.aggregate?_eq_some_iff.mp form)
  exact View.isPart_of_mem_many (View.isPart_of_required partShape read) present

/-! ## Every member -/

/-- The types of the model have a property for each member of the structures, and this holds of
them. -/
def EachMember (index : ShapeIndex) (holds : AggregateShape → ShapeMember → Member → Prop)
    (model : ServiceModel) : Prop :=
  List.Forall₂
    (fun record type => ∃ shape members,
      record.aggregate? = some shape ∧ AggregateShape.HasMembers shape members ∧
      List.Forall₂ (holds shape) members type.properties)
    (index.records .structureShape) model.types

/-- A property of members holds throughout a model if it holds of each resolved member. -/
theorem eachMember_of_resolveModel (holds : index.IsOf text) {path : String} {options : Options}
    {model : ServiceModel} {reports : List Report}
    {known : AggregateShape → ShapeMember → Member → Prop}
    (each : ∀ shape member m own, index.HasMember .structureShape shape member →
      index.resolveMember lines (AggregateShape.mixins shape) member = .ok (m, own) →
      (∀ report ∈ own, report ∈ reports) → known shape member m)
    (success : index.resolveModel lines path options = .ok (model, reports)) :
    index.EachMember known model := by
  obtain ⟨_, _, fromTypes, _, _, _, -, typed, -, -, -, -, all⟩ := resolveModel_spec success
  refine Reporting.forall₂_of_mapM_eq_ok ?_ typed
  intro record member type own success
  obtain ⟨_, own', success', -, inside⟩ := (Reporting.mapM_eq_ok typed).1 record member
  cases success.symm.trans success'
  obtain ⟨declared, filed⟩ := holds.isDeclaredIn member
  obtain ⟨shape, form, part⟩ := declared.exists_aggregate? (.inr filed)
  obtain ⟨-, -, -, resolved⟩ := resolveStructure_spec success
  unfold resolveMembers at resolved
  rw [form] at resolved
  obtain ⟨members, readMembers, resolved⟩ := read_bind_eq_ok_iff.mp resolved
  refine ⟨shape, _, form, ⟨members, readMembers, rfl⟩, ?_⟩
  refine Reporting.forall₂_of_mapM_eq_ok ?_ resolved
  intro element present m own'' success
  obtain ⟨_, _, success', -, inside'⟩ := (Reporting.mapM_eq_ok resolved).1 element present
  cases success.symm.trans success'
  refine each shape element m own'' ⟨record, member, _, form, ⟨members, readMembers, rfl⟩, present⟩
    success fun report reported => ?_
  rw [all]
  exact List.mem_append_right _ (List.mem_append_left _ (inside _ (inside' report reported)))

/-! ## What comes of a member -/

/-- What comes of a member with this name, target and traits in this place. -/
def resolveAs (index : ShapeIndex) (lines : LineIndex) (name id : String) (traits : List Trait)
    (span : Span) : Reporting Member := do
  let type ← index.resolveTarget id span
  Reporting.noting
    { name
      isArray := type.isArray
      isPrimitive := type.isPrimitive
      typeName := type.typeName
      rules := Constraint.ofTraits (type.traits ++ traits)
      location := lines.locate span }
    (Constraint.reports (type.traits ++ traits))

/-- A member with a target resolves like that target under the name of the member. -/
theorem resolveMember_of_memberTarget? {mixins : Option Mixins} {decl : MemberDecl}
    (readDecl : ShapeMember.decl member = .ok decl) {name : Identifier}
    (readName : MemberDecl.name decl = .ok name) {own : List Trait}
    (has : ShapeMember.HasTraits member own) {target : MemberTarget}
    (taken : index.memberTarget? mixins decl = .ok (some target)) :
    index.resolveMember lines mixins member =
      index.resolveAs lines name.text target.id (target.inherited ++ own) member.span := by
  obtain ⟨part, readPart, readTraits⟩ := has
  unfold resolveMember resolveMemberType resolveAs
  simp only [Reporting.read_bind_of_ok readDecl, Reporting.read_bind_of_ok readName,
    Reporting.read_bind_of_ok readPart, Reporting.read_bind_of_ok readTraits,
    Reporting.read_bind_of_ok taken, bind_assoc, pure_bind]
  refine bind_congr fun type => ?_
  simp only [ResolvedType.withTraits, List.append_assoc]

/-- A member that declares an id resolves like the id, with the member's own traits and at its
place. -/
theorem resolveMember_of_declares {name id : String}
    (declares : ShapeMember.Declares name member id) {traits : List Trait}
    (has : ShapeMember.HasTraits member traits) (mixins : Option Mixins) :
    index.resolveMember lines mixins member =
      index.resolveAs lines name id traits member.span := by
  obtain ⟨decl, identifier, readDecl, readName, rfl, taken⟩ := declares.exists_decl index mixins
  exact resolveMember_of_memberTarget? readDecl readName has taken

/-- What a member refers to is found for it. -/
theorem Takes.exists_decl (holds : index.IsOf text) {target : MemberTarget}
    (takes : index.Takes shape member target) :
    ∃ decl identifier, ShapeMember.decl member = .ok decl ∧
      MemberDecl.name decl = .ok identifier ∧
      index.memberTarget? (AggregateShape.mixins shape) decl = .ok (some target) := by
  rcases takes with ⟨name, declares, nothing⟩ | ⟨name, elides, first⟩
  · obtain ⟨id, inherited⟩ := target
    obtain rfl : inherited = [] := nothing
    obtain ⟨decl, identifier, readDecl, readName, -, taken⟩ := declares.exists_decl index _
    exact ⟨decl, identifier, readDecl, readName, taken⟩
  · obtain ⟨decl, elided, identifier, readDecl, form, readName, rfl⟩ := elides
    have same : elided.tree = decl.tree := by
      rw [← MemberDecl.tree_form, form]
      rfl
    refine ⟨decl, identifier, readDecl, (View.required_eq same.symm).trans readName, ?_⟩
    unfold memberTarget?
    unfold AggregateShape.mixinIds at first
    rw [form]
    simp only [readName]
    cases mixins : AggregateShape.mixins shape with
    | none =>
      rw [mixins] at first
      cases first
    | some mixins =>
      rw [mixins] at first
      obtain ⟨found, read, -⟩ := Outcome.Succeeds.findSomeM? fun mixin (_ : mixin ∈ _) =>
        succeeds_mixinMember? holds identifier.text mixin
      exact read.trans (congrArg _ ((first_providesWith_iff read target).mp first))

/-- A member that takes a target resolves like it, wherever the target was declared. -/
theorem Takes.resolveMember (holds : index.IsOf text) (lines : LineIndex) {target : MemberTarget}
    (takes : index.Takes shape member target) {own : List Trait}
    (has : ShapeMember.HasTraits member own) :
    ∃ name, index.resolveMember lines (AggregateShape.mixins shape) member =
      index.resolveAs lines name target.id (target.inherited ++ own) member.span := by
  obtain ⟨decl, identifier, readDecl, readName, taken⟩ := takes.exists_decl holds
  exact ⟨identifier.text, resolveMember_of_memberTarget? readDecl readName has taken⟩

/-- What a member inherits is written somewhere. -/
theorem Takes.exists_applications {target : MemberTarget}
    (takes : index.Takes shape member target) :
    ∃ applications : List TraitApplication,
      applications.mapM Trait.ofNode = .ok target.inherited := by
  rcases takes with ⟨name, -, nothing⟩ | ⟨name, -, first⟩
  · rw [nothing]
    exact ⟨[], rfl⟩
  · obtain ⟨mixin, -, _, _, members, -, -, -, offers⟩ := first.exists_mem
    obtain ⟨candidate, -, -, part, -, read⟩ := offers.exists_mem
    exact ⟨_, read⟩

/-- In the place of a member, another one can be written with the traits that this one has and
inherits. -/
theorem Takes.exists_written {target : MemberTarget} (takes : index.Takes shape member target)
    {own : List Trait} (has : ShapeMember.HasTraits member own) (name id : String) :
    ∃ written : ShapeMember, written.span = member.span ∧
      ShapeMember.Declares name written id ∧
      ShapeMember.HasTraits written (target.inherited ++ own) := by
  obtain ⟨applications, read⟩ := takes.exists_applications
  obtain ⟨part, -, readOwn⟩ := has
  refine ⟨.written member.span (applications ++ TraitStatements.traits part) name id, rfl,
    ShapeMember.declares_written .., ShapeMember.hasTraits_written _ ?_ name id⟩
  unfold Trait.ofStatements at readOwn
  rw [List.mapM_append, read, readOwn]
  rfl

end ShapeIndex

end ServiceIdl
