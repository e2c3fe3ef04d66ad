import ServiceIdl.Proofs.Resolve.Ensured
import ServiceIdl.Proofs.Resolve.Steps
import ServiceIdl.Proofs.Shape.Origin

/-!
# What is found, and where

Every report of a resolution says one thing of one part of the document, and is located at
that part: `ShapeIndex.Finds` lists what can be found, and `ShapeIndex.finds_resolveModel`
says that nothing else is reported. So which parts a report can be on is known from its
finding, and by the kind of the part alone (`ShapeIndex.Finds.hosts`).
-/

namespace ServiceIdl

open Reporting (Ensures)

/-! ## What declarations hold -/

/-- The last entry `operations` is an array of these elements. -/
def NodeObject.HasListing (body : NodeObject) (elements : List NodeValue) : Prop :=
  ∃ listing content array,
    NodeObject.HasLast body "operations" listing ∧ NodeValue.content listing = .ok content ∧
    NodeValueKind.form content = .array array ∧ NodeArray.values array = elements

/-- The body of the service has these elements in its list of operations. -/
def ShapeRecord.HasListing (service : ShapeRecord) (elements : List NodeValue) : Prop :=
  ∃ shape body,
    service.entity? = some shape ∧ EntityShape.body shape = .ok body ∧
    NodeObject.HasListing body elements

/-- The last value with a key is part of the object. -/
theorem NodeObject.HasLast.occurs {object : NodeObject} {key : String} {value : NodeValue}
    (last : NodeObject.HasLast object key value) : value.tree.Occurs object.tree := by
  obtain ⟨earlier, entry, later, split, ⟨_, _, _, readValue⟩, -⟩ :=
    First.exists_append_of_reverse last
  have member : entry ∈ NodeObject.entries object := by
    rw [split]
    simp
  exact View.occurs_of_required (View.occurs_of_mem_many .self member) readValue

/-- The elements that a service lists are right inside one array of its declaration. -/
theorem ShapeRecord.HasListing.exists_array {service : ShapeRecord} {elements : List NodeValue}
    (has : service.HasListing elements) :
    ∃ array : NodeArray, array.tree.Occurs service.decl.tree ∧
      NodeArray.values array = elements := by
  obtain ⟨shape, body, form, readBody, listing, content, array, last, readContent, formArray,
    values⟩ := has
  have occurs : shape.tree.Occurs service.decl.tree :=
    ShapeDecl.occurs_of_form .self (ShapeRecord.entity?_eq_some_iff.mp form)
  have inside : content.tree.Occurs service.decl.tree :=
    View.occurs_of_required (last.occurs.trans (View.occurs_of_required occurs readBody))
      readContent
  rw [← NodeValueKind.tree_form, formArray] at inside
  exact ⟨array, inside, values⟩

/-- The first input of the operation has this target. -/
def ShapeRecord.HasInput (operation : ShapeRecord) (target : OperationTarget) : Prop :=
  ∃ shape body input,
    operation.operation? = some shape ∧ OperationShape.body shape = .ok body ∧
    OperationBody.input body = some input ∧ OperationInput.target input = .ok target

/-- The first output of the operation has this target. -/
def ShapeRecord.HasOutput (operation : ShapeRecord) (target : OperationTarget) : Prop :=
  ∃ shape body output,
    operation.operation? = some shape ∧ OperationShape.body shape = .ok body ∧
    OperationBody.output body = some output ∧ OperationOutput.target output = .ok target

/-- The target of an input is right inside an input of the operation's declaration. -/
theorem ShapeRecord.HasInput.exists_parent {operation : ShapeRecord} {target : OperationTarget}
    (has : operation.HasInput target) :
    ∃ input : OperationInput, input.tree.Occurs operation.decl.tree ∧
      target.tree ∈ input.tree.children := by
  obtain ⟨shape, body, input, form, readBody, given, readTarget⟩ := has
  have occurs : shape.tree.Occurs operation.decl.tree :=
    ShapeDecl.occurs_of_form .self (ShapeRecord.operation?_eq_some_iff.mp form)
  exact ⟨input, View.occurs_of_optional (View.occurs_of_required occurs readBody) given,
    View.mem_children_of_required readTarget⟩

/-- The target of an output is right inside an output of the operation's declaration. -/
theorem ShapeRecord.HasOutput.exists_parent {operation : ShapeRecord} {target : OperationTarget}
    (has : operation.HasOutput target) :
    ∃ output : OperationOutput, output.tree.Occurs operation.decl.tree ∧
      target.tree ∈ output.tree.children := by
  obtain ⟨shape, body, output, form, readBody, given, readTarget⟩ := has
  have occurs : shape.tree.Occurs operation.decl.tree :=
    ShapeDecl.occurs_of_form .self (ShapeRecord.operation?_eq_some_iff.mp form)
  exact ⟨output, View.occurs_of_optional (View.occurs_of_required occurs readBody) given,
    View.mem_children_of_required readTarget⟩

namespace ShapeIndex

/-- The member is one of an indexed shape of this category. -/
def HasMember (index : ShapeIndex) (category : ShapeCategory) (shape : AggregateShape)
    (member : ShapeMember) : Prop :=
  ∃ record ∈ index.records category, ∃ members,
    record.aggregate? = some shape ∧ AggregateShape.HasMembers shape members ∧ member ∈ members

/-- What can be found in the document with this index and this tree, and on which part. -/
inductive Finds (index : ShapeIndex) (root : Tree) : Report → Prop
  | operationNotDefined {service : ShapeRecord} {elements : List NodeValue}
      {element : NodeValue} {id : String} :
    service ∈ index.records .service → service.HasListing elements → element ∈ elements →
    NodeValue.IsId element id → index.find? .operation id = none →
    Finds index root ⟨.operationNotDefined id service.name, element.span⟩
  | unsupportedVerb {operation : ShapeRecord} {binding : HttpBinding} :
    operation ∈ index.records .operation →
    HttpBinding.ofTraits? (index.traitsOf operation.name) = some binding →
    HttpVerb.ofLiteral? binding.method = none →
    Finds index root ⟨.unsupportedVerb binding.method operation.name, binding.span⟩
  | applied {statement : ApplyStatement} {target : ShapeId} :
    statement ∈ index.applies → ApplyStatement.target statement = .ok target →
    Finds index root ⟨.applied target.text, statement.span⟩
  | inlineInput {operation : ShapeRecord} {target : OperationTarget}
      {shape : InlineAggregateShape} :
    operation ∈ index.records .operation → operation.HasInput target →
    OperationTarget.form target = .inline shape →
    Finds index root ⟨.inline .input operation.name, shape.span⟩
  | inlineOutput {operation : ShapeRecord} {target : OperationTarget}
      {shape : InlineAggregateShape} :
    operation ∈ index.records .operation → operation.HasOutput target →
    OperationTarget.form target = .inline shape →
    Finds index root ⟨.inline .output operation.name, shape.span⟩
  | unknownReturnType {operation : ShapeRecord} {target : OperationTarget}
      {reference : ShapeId} :
    operation ∈ index.records .operation → operation.HasOutput target →
    OperationTarget.form target = .named reference →
    index.find? .structureShape reference.text = none →
    Finds index root ⟨.unknownReturnType reference.text operation.name, reference.span⟩
  | unexpectedElision {member : ShapeMember} {decl : MemberDecl} {name : Identifier} :
    member.tree.Occurs root → ShapeMember.decl member = .ok decl →
    MemberDecl.name decl = .ok name →
    Finds index root ⟨.unexpectedElision name.text, member.span⟩
  | missingListMember {list : ShapeRecord} {shape : AggregateShape} :
    list ∈ index.records .list → list.aggregate? = some shape →
    AggregateShape.HasMembers shape [] →
    Finds index root ⟨.missingListMember list.name, list.span⟩
  | unknownTrait {t : Trait} :
    t.IsFrom root → Constraint.ofTrait? t = none →
    Finds index root ⟨.unknownTrait t.id, t.span⟩
  | unsupportedMember {member : ShapeMember} {keyword : String} :
    member.tree.Occurs root → Scalar.ofKeyword? keyword = none →
    Finds index root ⟨.unsupportedSimpleType keyword, member.span⟩
  | unsupportedSimple {record : ShapeRecord} {decl : SimpleShape} {keyword : SimpleTypeName} :
    record ∈ index.records .simple → record.simple? = some decl →
    SimpleShape.typeName decl = .ok keyword → Scalar.ofKeyword? keyword.text = none →
    Finds index root ⟨.unsupportedSimpleType keyword.text, record.span⟩
  | unknownPrimitive {category : ShapeCategory} {shape : AggregateShape} {member : ShapeMember}
      {decl : MemberDecl} {target : MemberTarget} :
    index.HasMember category shape member → ShapeMember.decl member = .ok decl →
    index.memberTarget? (AggregateShape.mixins shape) decl = .ok (some target) →
    Scalar.isExpectedPrimitive target.id = true →
    Finds index root ⟨.unknownPrimitive target.id, member.span⟩

end ShapeIndex

/-- The traits that come with the type are from the tree. -/
def ResolvedType.IsFrom (root : Tree) (type : ResolvedType) : Prop :=
  ∀ t ∈ type.traits, t.IsFrom root

/-- The traits that a member takes over are from the tree. -/
def MemberTarget.IsFrom (root : Tree) (target : MemberTarget) : Prop :=
  ∀ t ∈ target.inherited, t.IsFrom root

variable {root : Tree} {index : ShapeIndex} {lines : LineIndex}

/-- A member of a shape of the document is part of the document. -/
theorem ShapeIndex.HasMember.occurs (origin : index.IsFrom root) {category : ShapeCategory}
    {shape : AggregateShape} {member : ShapeMember} (has : index.HasMember category shape member) :
    member.tree.Occurs root := by
  obtain ⟨record, inside, _, form, ⟨part, read, rfl⟩, present⟩ := has
  have occurs := ShapeDecl.occurs_of_form (origin.shapes _ record inside)
    (ShapeRecord.aggregate?_eq_some_iff.mp form)
  exact View.occurs_of_mem_many (View.occurs_of_required occurs read) present

/-- Adding traits of the document keeps the origin. -/
theorem ResolvedType.IsFrom.withTraits {type : ResolvedType} (origin : type.IsFrom root)
    {traits : List Trait} (more : ∀ t ∈ traits, t.IsFrom root) :
    (type.withTraits traits).IsFrom root :=
  List.forall_mem_append.mpr ⟨origin, more⟩

/-- The reports on traits are on traits without a meaning as constraints. -/
theorem Constraint.finds_reports {traits : List Trait} (origin : ∀ t ∈ traits, t.IsFrom root) :
    ∀ report ∈ Constraint.reports traits, index.Finds root report := by
  intro report member
  obtain ⟨t, present, found⟩ := List.mem_filterMap.mp member
  unfold Constraint.report? at found
  split at found
  · rename_i nothing
    cases found
    exact .unknownTrait (origin t present) (Option.isNone_iff_eq_none.mp nothing)
  · cases found

/-- A binding is where its trait is. -/
theorem HttpBinding.span_of_ofTrait? {t : Trait} {binding : HttpBinding}
    (bound : HttpBinding.ofTrait? t = some binding) : binding.span = t.span := by
  unfold HttpBinding.ofTrait? at bound
  split at bound
  · obtain ⟨method, -, bound⟩ := Option.bind_eq_some_iff.mp bound
    obtain ⟨uri, -, bound⟩ := Option.bind_eq_some_iff.mp bound
    split at bound
    · cases bound
      rfl
    · obtain ⟨code, -, bound⟩ := Option.bind_eq_some_iff.mp bound
      cases bound
      rfl
  · cases bound

/-- The binding among some traits is on one of them. -/
theorem HttpBinding.exists_span_of_ofTraits? {traits : List Trait} {binding : HttpBinding}
    (bound : HttpBinding.ofTraits? traits = some binding) :
    ∃ t ∈ traits, binding.span = t.span := by
  obtain ⟨t, last, read⟩ := Option.bind_eq_some_iff.mp bound
  exact ⟨t, Trait.mem_of_find? last, HttpBinding.span_of_ofTrait? read⟩

/-- A binding of a listed operation is reported for its verb. -/
theorem HttpBinding.finds_reports {operation : ShapeRecord} {binding : HttpBinding}
    (member : operation ∈ index.records .operation)
    (bound : HttpBinding.ofTraits? (index.traitsOf operation.name) = some binding) :
    ∀ report ∈ binding.reports operation.name, index.Finds root report := by
  unfold HttpBinding.reports
  split
  · rename_i nothing
    refine List.forall_mem_singleton.mpr ?_
    exact .unsupportedVerb member bound (Option.isNone_iff_eq_none.mp nothing)
  · exact List.forall_mem_nil _

/-- A keyword without a scalar is reported where the span is. -/
theorem finds_scalarOfKeyword {keyword : String} {span : Span}
    (found : Scalar.ofKeyword? keyword = none →
      index.Finds root ⟨.unsupportedSimpleType keyword, span⟩) :
    Ensures (index.Finds root) (scalarOfKeyword keyword span) fun _ => True := by
  unfold scalarOfKeyword
  cases scalar : Scalar.ofKeyword? keyword with
  | some scalar => exact .pure trivial
  | none => exact .reporting trivial (found scalar)

namespace ShapeIndex

/-! ## Types -/

theorem finds_resolveAlias (origin : index.IsFrom root) {record : ShapeRecord}
    (member : record ∈ index.records .simple) :
    Ensures (index.Finds root) (index.resolveAlias record) fun type => type.IsFrom root := by
  unfold resolveAlias
  cases form : record.simple? with
  | none => exact .pure (List.forall_mem_nil _)
  | some decl =>
    refine .known fun keyword read => ?_
    have scalar : Ensures (index.Finds root) (scalarOfKeyword keyword.text record.span)
        fun _ => True :=
      finds_scalarOfKeyword (.unsupportedSimple member form read)
    exact scalar.bind fun _ _ => .pure (origin.traits record.name)

/-- An id that only the prelude could have is one of its names. -/
theorem isExpectedPrimitive_of_typeRef {id name : String}
    (ref : index.typeRef id = .expectedPrimitive name) :
    name = id ∧ Scalar.isExpectedPrimitive id = true := by
  unfold typeRef at ref
  split at ref
  · cases ref
  · split at ref
    · cases ref
    · split at ref
      · cases ref
      · split at ref
        · rename_i expected
          cases ref
          exact ⟨rfl, expected⟩
        · cases ref

/-- A reference of a member is reported when nothing has its name. -/
theorem finds_resolveTypeRef (origin : index.IsFrom root) {category : ShapeCategory}
    {shape : AggregateShape} {member : ShapeMember} (has : index.HasMember category shape member)
    {decl : MemberDecl} (readDecl : ShapeMember.decl member = .ok decl) {target : MemberTarget}
    (taken : index.memberTarget? (AggregateShape.mixins shape) decl = .ok (some target)) :
    Ensures (index.Finds root) (index.resolveTypeRef target.id member.span) fun type =>
      type.IsFrom root := by
  have spec := index.typeRef_spec target.id
  unfold resolveTypeRef
  cases ref : index.typeRef target.id with
  | keyword word =>
    exact (finds_scalarOfKeyword (.unsupportedMember (has.occurs origin))).bind fun _ _ =>
      .pure (List.forall_mem_nil _)
  | wrapper scalar => exact .pure (List.forall_mem_nil _)
  | «alias» shape =>
    rw [ref] at spec
    exact finds_resolveAlias origin (mem_records_of_find? spec)
  | expectedPrimitive name =>
    obtain ⟨rfl, expected⟩ := isExpectedPrimitive_of_typeRef ref
    exact .reporting (List.forall_mem_nil _) (.unknownPrimitive has readDecl taken expected)
  | named => exact .pure (List.forall_mem_nil _)

/-! ## Members -/

/-- The traits that come with an explicit target are from the tree. -/
theorem isFrom_explicitTarget? (name : String) {member : ShapeMember}
    (occurs : member.tree.Occurs root) :
    Outcome.Ensures (ShapeMember.explicitTarget? name member) fun found =>
      ∀ target, found = some target → target.IsFrom root := by
  refine .read fun decl _ => ?_
  cases MemberDecl.form decl with
  | elided => exact .pure (by simp)
  | explicit decl =>
    refine .read fun own _ => ?_
    split
    · refine .read fun target _ => .read fun part readPart => .read fun traits readTraits => ?_
      refine .pure ?_
      intro found same
      cases same
      exact Trait.isFrom_of_ofStatements (View.occurs_of_required occurs readPart) readTraits
    · exact .pure (by simp)

theorem isFrom_mixinMember? (origin : index.IsFrom root) (name : String) (mixin : ShapeId) :
    Outcome.Ensures (index.mixinMember? name mixin) fun found =>
      ∀ target, found = some target → target.IsFrom root := by
  unfold mixinMember?
  cases form : (index.lookup? mixin.text).bind ShapeRecord.aggregate? with
  | none => exact .ok (by simp)
  | some shape =>
    obtain ⟨record, found, aggregate⟩ := Option.bind_eq_some_iff.mp form
    have occurs := ShapeDecl.occurs_of_form (origin.lookedUp found)
      (ShapeRecord.aggregate?_eq_some_iff.mp aggregate)
    refine .read fun members readMembers => ?_
    have within := View.occurs_of_required occurs readMembers
    refine .findSomeM? fun member present => ?_
    exact isFrom_explicitTarget? name (View.occurs_of_mem_many within present)

theorem isFrom_memberTarget? (origin : index.IsFrom root) (mixins : Option Mixins)
    (decl : MemberDecl) :
    Outcome.Ensures (index.memberTarget? mixins decl) fun found =>
      ∀ target, found = some target → target.IsFrom root := by
  unfold memberTarget?
  cases MemberDecl.form decl with
  | explicit member =>
    refine .read fun target _ => .pure ?_
    intro found same
    cases same
    exact List.forall_mem_nil _
  | elided member =>
    refine .read fun name _ => ?_
    cases mixins with
    | none => exact .pure (by simp)
    | some mixins => exact .findSomeM? fun mixin _ => isFrom_mixinMember? origin _ mixin

theorem finds_resolveElement (origin : index.IsFrom root) {category : ShapeCategory}
    {shape : AggregateShape} {element : ShapeMember}
    (has : index.HasMember category shape element) :
    Ensures (index.Finds root) (index.resolveElement shape element) fun type =>
      type.IsFrom root := by
  have occurs := has.occurs origin
  refine .known fun decl readDecl => .known fun part readPart => .known fun own readOwn => ?_
  have each := Trait.isFrom_of_ofStatements (View.occurs_of_required occurs readPart) readOwn
  refine .known fun target taken => ?_
  have inherited := isFrom_memberTarget? origin _ decl target taken
  cases target with
  | none =>
    refine .known fun name readName => ?_
    refine (Ensures.report (.unexpectedElision occurs readDecl readName)).bind fun _ _ => ?_
    have unknown : ResolvedType.unknown.IsFrom root := List.forall_mem_nil _
    exact .pure (unknown.withTraits each)
  | some target =>
    refine (finds_resolveTypeRef origin has readDecl taken).bind fun type met => ?_
    exact .pure ((met.withTraits (inherited target rfl)).withTraits each)

/-- A list is reported for its first member, or for having none. -/
theorem finds_resolveList (origin : index.IsFrom root) {list : ShapeRecord}
    (member : list ∈ index.records .list) :
    Ensures (index.Finds root) (index.resolveList list) fun type => type.IsFrom root := by
  have own := origin.traits list.name
  unfold resolveList
  cases form : list.aggregate? with
  | none => exact .pure own
  | some shape =>
    refine .known fun members readMembers => ?_
    cases elements : ShapeMembers.members members with
    | nil =>
      have empty : AggregateShape.HasMembers shape [] := ⟨members, readMembers, elements⟩
      exact (Ensures.report (.missingListMember member form empty)).bind fun _ _ => .pure own
    | cons element rest =>
      have first : element ∈ ShapeMembers.members members := by
        rw [elements]
        exact List.mem_cons_self
      have has : index.HasMember .list shape element :=
        ⟨list, member, _, form, ⟨members, readMembers, rfl⟩, first⟩
      refine (finds_resolveElement origin has).bind fun type met => ?_
      exact .pure (List.forall_mem_append.mpr ⟨own, met⟩)

/-- A target is reported for the list or the element that it is. -/
theorem finds_resolveTarget (origin : index.IsFrom root) {category : ShapeCategory}
    {shape : AggregateShape} {member : ShapeMember} (has : index.HasMember category shape member)
    {decl : MemberDecl} (readDecl : ShapeMember.decl member = .ok decl) {target : MemberTarget}
    (taken : index.memberTarget? (AggregateShape.mixins shape) decl = .ok (some target)) :
    Ensures (index.Finds root) (index.resolveTarget target.id member.span) fun type =>
      type.IsFrom root := by
  unfold resolveTarget
  cases ref : index.listRef? target.id with
  | none => exact finds_resolveTypeRef origin has readDecl taken
  | some list => exact finds_resolveList origin (mem_records_of_find? (find?_of_listRef? ref))

/-- A member is reported for a missing target or for the one it has. -/
theorem finds_resolveMember (origin : index.IsFrom root) (lines : LineIndex)
    {category : ShapeCategory} {shape : AggregateShape} {member : ShapeMember}
    (has : index.HasMember category shape member) :
    Ensures (index.Finds root) (index.resolveMember lines (AggregateShape.mixins shape) member)
      fun _ => True := by
  have occurs := has.occurs origin
  refine .known fun decl readDecl => .known fun name readName => .known fun part readPart => ?_
  refine .known fun own readOwn => ?_
  have each := Trait.isFrom_of_ofStatements (View.occurs_of_required occurs readPart) readOwn
  have resolved : Ensures (index.Finds root)
      (index.resolveMemberType (AggregateShape.mixins shape) decl name.text member.span)
        fun type => type.IsFrom root := by
    refine .known fun target taken => ?_
    have inherited := isFrom_memberTarget? origin _ decl target taken
    cases target with
    | none =>
      exact .reporting (List.forall_mem_nil _) (.unexpectedElision occurs readDecl readName)
    | some target =>
      refine (finds_resolveTarget origin has readDecl taken).bind fun type met => ?_
      exact .pure (met.withTraits (inherited target rfl))
  refine resolved.bind fun type met => ?_
  exact .noting trivial (Constraint.finds_reports (List.forall_mem_append.mpr ⟨met, each⟩))

/-- A structure is reported for each of its members. -/
theorem finds_resolveMembers (origin : index.IsFrom root) (lines : LineIndex)
    {record : ShapeRecord} (member : record ∈ index.records .structureShape) :
    Ensures (index.Finds root) (index.resolveMembers lines record) fun _ => True := by
  unfold resolveMembers
  cases form : record.aggregate? with
  | none => exact .pure trivial
  | some shape =>
    refine .known fun members readMembers => ?_
    have each := Ensures.mapM fun element present =>
      finds_resolveMember origin lines
        ⟨record, member, _, form, ⟨members, readMembers, rfl⟩, present⟩
    exact each.mono fun _ _ => trivial

theorem finds_resolveStructure (origin : index.IsFrom root) (lines : LineIndex)
    {record : ShapeRecord} (member : record ∈ index.records .structureShape) :
    Ensures (index.Finds root) (index.resolveStructure lines record) fun _ => True :=
  (finds_resolveMembers origin lines member).bind fun _ _ => .pure trivial

/-! ## Operations -/

/-- An input is reported when it is written in place, or for its members. -/
theorem finds_resolveInput (origin : index.IsFrom root) (lines : LineIndex)
    {operation : ShapeRecord} (member : operation ∈ index.records .operation)
    {input : OperationInput}
    (given : ∀ target, OperationInput.target input = .ok target → operation.HasInput target) :
    Ensures (index.Finds root) (index.resolveInput lines operation.name input) fun _ => True := by
  refine .known fun target read => ?_
  cases form : OperationTarget.form target with
  | inline shape => exact .reporting trivial (.inlineInput member (given target read) form)
  | named id =>
    simp only
    cases found : index.find? .structureShape id.text with
    | none => exact .pure trivial
    | some record => exact finds_resolveMembers origin lines (mem_records_of_find? found)

/-- An output is reported when it is written in place, or names no structure. -/
theorem finds_resolveOutput (origin : index.IsFrom root) (lines : LineIndex)
    {operation : ShapeRecord} (member : operation ∈ index.records .operation)
    {output : OperationOutput} (occurs : output.tree.Occurs root)
    (given : ∀ target, OperationOutput.target output = .ok target → operation.HasOutput target) :
    Ensures (index.Finds root) (index.resolveOutput lines operation.name output) fun _ =>
      True := by
  refine .known fun target read => ?_
  cases form : OperationTarget.form target with
  | inline shape => exact .reporting trivial (.inlineOutput member (given target read) form)
  | named id =>
    refine .known fun part readPart => .known fun own readOwn => ?_
    have each := Trait.isFrom_of_ofStatements (View.occurs_of_required occurs readPart) readOwn
    simp only
    cases found : index.find? .structureShape id.text with
    | none => exact .reporting trivial (.unknownReturnType member (given target read) form found)
    | some record =>
      refine .noting trivial (Constraint.finds_reports ?_)
      exact List.forall_mem_append.mpr ⟨origin.traits record.name, each⟩

/-- An operation is reported for its input and its output. -/
theorem finds_resolveMethod (origin : index.IsFrom root) (lines : LineIndex)
    {operation : ShapeRecord} (member : operation ∈ index.records .operation) :
    Ensures (index.Finds root) (index.resolveMethod lines operation) fun _ => True := by
  unfold resolveMethod
  cases form : operation.operation? with
  | none => exact .pure trivial
  | some shape =>
    have occurs := ShapeDecl.occurs_of_form (origin.shapes _ operation member)
      (ShapeRecord.operation?_eq_some_iff.mp form)
    have signature : Ensures (index.Finds root)
        (index.resolveSignature lines operation.name shape) fun _ => True := by
      refine .known fun body readBody => ?_
      have within := View.occurs_of_required occurs readBody
      have parameters : Ensures (index.Finds root)
          (index.resolveParameters lines operation.name body) fun _ => True := by
        unfold resolveParameters
        cases given : OperationBody.input body with
        | none => exact .pure trivial
        | some input =>
          refine finds_resolveInput origin lines member fun target read => ?_
          exact ⟨shape, body, input, form, readBody, given, read⟩
      have returnType : Ensures (index.Finds root)
          (index.resolveReturnType lines operation.name body) fun _ => True := by
        unfold resolveReturnType
        cases given : OperationBody.output body with
        | none => exact .pure trivial
        | some output =>
          refine finds_resolveOutput origin lines member
            (View.occurs_of_optional within given) fun target read => ?_
          exact ⟨shape, body, output, form, readBody, given, read⟩
      exact parameters.bind fun _ _ => returnType.bind fun _ _ => .pure trivial
    exact signature.bind fun _ _ => .pure trivial

/-! ## Services -/

/-- A service is reported for each element that is no operation. -/
theorem finds_resolveListings {service : ShapeRecord}
    (member : service ∈ index.records .service) {body : NodeObject}
    (given : ∀ elements, NodeObject.HasListing body elements → service.HasListing elements) :
    Ensures (index.Finds root) (index.resolveListings service.name body) fun operations =>
      ∀ operation ∈ operations, operation ∈ index.records .operation := by
  refine .known fun found read => ?_
  cases found with
  | none => exact .pure (List.forall_mem_nil _)
  | some listing =>
    refine .known fun content readContent => ?_
    cases form : NodeValueKind.form content with
    | array elements =>
      have has : service.HasListing (NodeArray.values elements) :=
        given _ ⟨listing, content, elements, (NodeObject.hasLast_iff read listing).mpr rfl,
          readContent, form, rfl⟩
      have each : Ensures (index.Finds root)
          ((NodeArray.values elements).mapM (index.resolveListing service.name)) fun found =>
            ∀ operation? ∈ found, ∀ operation, operation? = some operation →
              operation ∈ index.records .operation := by
        refine .mapM fun element present => .known fun value readValue => ?_
        have names := NodeValue.isId_iff readValue
        cases named : operationId? value with
        | none => exact .pure (by simp)
        | some id =>
          simp only
          cases found : index.find? .operation id with
          | none =>
            exact .reporting (by simp)
              (.operationNotDefined member has present ((names id).mpr named) found)
          | some operation =>
            refine .pure ?_
            intro other same
            cases same
            exact mem_records_of_find? found
      refine each.bind fun found known => .pure fun operation listed => ?_
      obtain ⟨operation?, present, same⟩ := List.mem_filterMap.mp listed
      exact known operation? present operation same
    | object | number | keyword | string => exact .pure (List.forall_mem_nil _)

theorem finds_of_bindings (operations : List ShapeRecord)
    (each : ∀ operation ∈ operations, operation ∈ index.records .operation) :
    ∀ report ∈ (index.bindings operations).flatMap (fun bound => bound.2.reports bound.1),
      index.Finds root report := by
  intro report member
  obtain ⟨bound, present, inside⟩ := List.mem_flatMap.mp member
  obtain ⟨operation, listed, found⟩ := List.mem_filterMap.mp present
  obtain ⟨binding, read, rfl⟩ := Option.map_eq_some_iff.mp found
  exact HttpBinding.finds_reports (each operation listed) read report inside

theorem finds_interfaceOf (origin : index.IsFrom root) (lines : LineIndex) (options : Options)
    (record : ShapeRecord) {operations : List ShapeRecord}
    (each : ∀ operation ∈ operations, operation ∈ index.records .operation)
    (version : Option String) :
    Ensures (index.Finds root) (index.interfaceOf lines options record operations version)
      fun _ => True := by
  have bound : Ensures (index.Finds root) (Reporting.noting () _) fun _ => True :=
    .noting trivial (finds_of_bindings operations each)
  have methods : Ensures (index.Finds root) (operations.mapM (index.resolveMethod lines))
      fun methods => ∀ m ∈ methods, True :=
    .mapM fun operation member => finds_resolveMethod origin lines (each operation member)
  exact bound.bind fun _ _ => methods.bind fun _ _ => .pure trivial

/-- A service is reported for what it lists and for the verbs of what it lists. -/
theorem finds_resolveService (origin : index.IsFrom root) (lines : LineIndex) (options : Options)
    {service : ShapeRecord} (member : service ∈ index.records .service) :
    Ensures (index.Finds root) (index.resolveService lines options service) fun _ => True := by
  cases form : service.entity? with
  | none =>
    rw [resolveService_of_none form]
    exact finds_interfaceOf origin lines options service (List.forall_mem_nil _) none
  | some shape =>
    rw [resolveService_of_some form]
    have body : Ensures (index.Finds root) (index.resolveBody service.name shape) fun given =>
        ∀ operation ∈ given.1, operation ∈ index.records .operation := by
      refine .known fun body readBody => ?_
      have listings : Ensures (index.Finds root) (index.resolveListings service.name body) _ :=
        finds_resolveListings member fun elements has => ⟨shape, body, form, readBody, has⟩
      exact listings.bind fun operations each => .skip fun version => .pure each
    exact body.bind fun given each => finds_interfaceOf origin lines options service each given.2

/-! ## Documents -/

/-- Whatever is reported on a document is found on a part of it. -/
theorem finds_resolveModel (origin : index.IsFrom root) (lines : LineIndex) (path : String)
    (options : Options) :
    Ensures (index.Finds root) (index.resolveModel lines path options) fun _ => True := by
  refine Ensures.bind (.mapM fun service member =>
    finds_resolveService origin lines options member) fun services _ => ?_
  refine Ensures.bind (.mapM fun record member =>
    finds_resolveStructure origin lines member) fun types _ => ?_
  have read (record : ShapeRecord) :
      Outcome.Ensures (index.resolveEnum lines record) fun _ => True := fun _ _ => trivial
  refine Ensures.bind (.mapM fun record _ => .lift (read record)) fun enums _ => ?_
  refine Ensures.bind (.mapM fun statement member =>
    .known fun target read => .report (.applied member read)) fun _ _ => ?_
  exact .pure trivial

end ShapeIndex

/-- The index of a document describes its tree, and all that is reported of it is found there. -/
theorem exists_findings_of_accepted {text : String} {events : List Event}
    (accepted : documentEvents text = .ok events) (path : String) (options : Options) :
    ∃ tree idl index model reports, documentTree text = .ok (.ok tree) ∧
      Idl.ofTree tree = .ok idl ∧ ShapeIndex.ofIdl idl = .ok index ∧
      idl.tree.IsDocument text.toList ∧ index.IsOf text.toList ∧ index.IsFrom idl.tree ∧
      index.resolveModel (.ofText text) path options = .ok (model, reports) ∧
      (∀ report ∈ reports, index.Finds idl.tree report) ∧
      resolve text path options = .ok
        { model
          diagnostics := (Log.empty.insertReports path (.ofText text) reports).entries } := by
  obtain ⟨tree, idl, index, model, reports, made, document, root, indexed, holds, modelled,
    resolved⟩ := exists_model_of_accepted accepted path options
  rw [← Idl.ofTree_eq_ok_iff.mp root] at document
  have origin := ShapeIndex.isFrom_ofIdl indexed
  exact ⟨tree, idl, index, model, reports, made, root, indexed, document, holds, origin, modelled,
    (ShapeIndex.finds_resolveModel origin _ path options _ _ modelled).2, resolved⟩

/-! ## Places of findings -/

theorem Code.mem_all (code : Code) : code ∈ all := by cases code <;> decide

/-- The kinds of the nodes that findings with a code are on. An unknown return type is on the id
inside such a node. -/
def Code.hosts : Code → List Kind
  | .syntaxError => []
  | .operationNotDefined => [.nodeValue]
  | .unsupportedHttpVerb | .unknownTrait => [.traitApplication]
  | .unsupportedFeature => [.applyStatement, .inlineAggregateShape]
  | .unknownReturnType => [.operationOutput]
  | .unexpectedElision | .unknownPrimitive => [.shapeMember]
  | .missingListMember => [.aggregateShape]
  | .unsupportedSimpleType => [.shapeMember, .simpleShape]

/-- In the tree, a node of one of the kinds has a part with this span, or has it itself. -/
def Tree.Hosts (root : Tree) (kinds : List Kind) (span : Span) : Prop :=
  ∃ host part : Tree, host.Occurs root ∧ host.kind ∈ kinds ∧ part.Occurs host ∧ part.span = span

/-- A view over nodes of the right kind hosts the reports of a code. -/
theorem View.hosts (code : Code) {c : Category} {v : View c} (occurs : v.tree.Occurs root)
    (among : c.kinds ⊆ code.hosts) : root.Hosts code.hosts v.span :=
  ⟨v.tree, _, occurs, among v.accepted, .self, rfl⟩

theorem Trait.IsFrom.hosts {t : Trait} (origin : t.IsFrom root) :
    root.Hosts Code.unknownTrait.hosts t.span := by
  obtain ⟨application, occurs, read⟩ := origin
  rw [Trait.span_of_ofNode read]
  exact View.hosts .unknownTrait occurs (by decide)

/-- A finding is located on a node of a kind for its code, or on a part of one. -/
theorem ShapeIndex.Finds.hosts (origin : index.IsFrom root) {report : Report}
    (found : index.Finds root report) : root.Hosts report.finding.code.hosts report.span := by
  have onInline {target : OperationTarget} {shape : InlineAggregateShape}
      (form : OperationTarget.form target = .inline shape) (occurs : target.tree.Occurs root) :
      root.Hosts Code.unsupportedFeature.hosts shape.span := by
    rw [← OperationTarget.tree_form, form] at occurs
    exact View.hosts .unsupportedFeature occurs (by decide)
  cases found with
  | @operationNotDefined service elements element _ member has present =>
    obtain ⟨array, within, rfl⟩ := has.exists_array
    have occurs := View.occurs_of_mem_many within present
    exact View.hosts .operationNotDefined (occurs.trans (origin.shapes _ service member))
      (by decide)
  | @unsupportedVerb operation binding _ bound =>
    obtain ⟨t, present, same⟩ := HttpBinding.exists_span_of_ofTraits? bound
    change root.Hosts _ binding.span
    rw [same]
    exact (origin.traits _ t present).hosts
  | unknownTrait from_ => exact from_.hosts
  | @applied statement _ member =>
    exact View.hosts .unsupportedFeature (origin.applies statement member) (by decide)
  | @inlineInput operation _ _ member has form =>
    obtain ⟨input, within, inside⟩ := has.exists_parent
    exact onInline form ((within.child inside).trans (origin.shapes _ operation member))
  | @inlineOutput operation _ _ member has form =>
    obtain ⟨output, within, inside⟩ := has.exists_parent
    exact onInline form ((within.child inside).trans (origin.shapes _ operation member))
  | @unknownReturnType operation target reference member has form =>
    obtain ⟨output, within, inside⟩ := has.exists_parent
    rw [← OperationTarget.tree_form, form] at inside
    exact ⟨output.tree, reference.tree, within.trans (origin.shapes _ operation member),
      output.accepted, .inside inside .self, rfl⟩
  | unexpectedElision occurs => exact View.hosts .unexpectedElision occurs (by decide)
  | unknownPrimitive has => exact View.hosts .unknownPrimitive (has.occurs origin) (by decide)
  | unsupportedMember occurs => exact View.hosts .unsupportedSimpleType occurs (by decide)
  | @missingListMember list shape member form =>
    -- A declaration and the shape that it declares are the same node.
    have same := ShapeDecl.tree_form list.decl
    rw [ShapeRecord.aggregate?_eq_some_iff.mp form] at same
    have occurs := origin.shapes _ list member
    rw [← same] at occurs
    exact ⟨shape.tree, _, occurs, shape.accepted, .self, congrArg Tree.span same⟩
  | @unsupportedSimple record decl _ member form =>
    have same := ShapeDecl.tree_form record.decl
    rw [ShapeRecord.simple?_eq_some_iff.mp form] at same
    have occurs := origin.shapes _ record member
    rw [← same] at occurs
    have among : Category.simpleShape.kinds ⊆ Code.unsupportedSimpleType.hosts := by decide
    exact ⟨decl.tree, _, occurs, among decl.accepted, .self, congrArg Tree.span same⟩

end ServiceIdl
