import ServiceIdl.Proofs.Resolve.Bindings

/-!
# The signatures of methods

The first input and the first output of an operation say what its method takes and gives. A
structure that is written in place says nothing, and is reported. An output that names a
structure of the document gives its name, and the constraints of two lists of traits: those of the
structure, and those in front of the output. One that names none is reported. Each report stands
once among the diagnostics, however often operations are listed (`resolve_signatures`).

The traits of a structure are those in front of the last shape statement with its name. So a
structure with a later namesake in another category has the constraints of that one
(`resolve_namesakeOutput`).
-/

namespace ServiceIdl

open Reporting (bind_eq_ok_iff read_bind_eq_ok_iff)

/-! ## Inputs and outputs -/

/-- The kind of the nodes of this end of an operation. -/
def Role.kind : Role → Kind
  | .input => .operationInput
  | .output => .operationOutput

theorem Role.eq_of_kind_eq {role other : Role} (same : role.kind = other.kind) : role = other := by
  cases role <;> cases other <;> first | rfl | cases same

namespace ShapeRecord

variable {operation : ShapeRecord} {role : Role} {shape : InlineAggregateShape}
  {reference other : ShapeId}

/-- The first input, or the first output, of the operation has this target. -/
def HasRoleTarget (operation : ShapeRecord) : Role → OperationTarget → Prop
  | .input => operation.HasInput
  | .output => operation.HasOutput

/-- The first input, or the first output, of the operation is this structure written in place. -/
def HasInline (operation : ShapeRecord) (role : Role) (shape : InlineAggregateShape) : Prop :=
  ∃ target, operation.HasRoleTarget role target ∧ OperationTarget.form target = .inline shape

/-- The first output of the operation is this id. -/
def HasReference (operation : ShapeRecord) (reference : ShapeId) : Prop :=
  ∃ target, operation.HasOutput target ∧ OperationTarget.form target = .named reference

/-- These traits are in front of the first output of the operation. -/
def HasOutputTraits (operation : ShapeRecord) (traits : List Trait) : Prop :=
  ∃ shape body output part,
    operation.operation? = some shape ∧ OperationShape.body shape = .ok body ∧
    OperationBody.output body = some output ∧ OperationOutput.traits output = .ok part ∧
    Trait.ofStatements part = .ok traits

theorem HasRoleTarget.unique {target target' : OperationTarget}
    (left : operation.HasRoleTarget role target) (right : operation.HasRoleTarget role target') :
    target = target' := by
  cases role with
  | input | output =>
    obtain ⟨shape, body, part, form, readBody, given, read⟩ := left
    obtain ⟨shape', body', part', form', readBody', given', read'⟩ := right
    cases form.symm.trans form'
    cases readBody.symm.trans readBody'
    cases given.symm.trans given'
    exact Except.ok.inj (read.symm.trans read')

theorem HasInline.unique {shape' : InlineAggregateShape} (left : operation.HasInline role shape)
    (right : operation.HasInline role shape') : shape = shape' := by
  obtain ⟨target, has, form⟩ := left
  obtain ⟨target', has', form'⟩ := right
  cases has.unique has'
  cases form.symm.trans form'
  rfl

theorem HasReference.unique (left : operation.HasReference reference)
    (right : operation.HasReference other) : reference = other := by
  obtain ⟨target, has, form⟩ := left
  obtain ⟨target', has', form'⟩ := right
  have output : operation.HasRoleTarget .output target := has
  cases output.unique has'
  cases form.symm.trans form'
  rfl

/-- A structure in place is right inside the node of its end. -/
theorem HasInline.exists_parent (has : operation.HasInline role shape) :
    ∃ node : Tree, node.kind = role.kind ∧ node.Occurs operation.decl.tree ∧
      shape.tree ∈ node.children := by
  obtain ⟨target, has, form⟩ := has
  have same := OperationTarget.tree_form target
  rw [form] at same
  cases role with
  | input =>
    obtain ⟨input, occurs, child⟩ := HasInput.exists_parent has
    rw [← same] at child
    exact ⟨input.tree, List.mem_singleton.mp input.accepted, occurs, child⟩
  | output =>
    obtain ⟨output, occurs, child⟩ := HasOutput.exists_parent has
    rw [← same] at child
    exact ⟨output.tree, List.mem_singleton.mp output.accepted, occurs, child⟩

theorem HasNamedOutput.exists_hasReference {id : String} (named : operation.HasNamedOutput id) :
    ∃ reference, operation.HasReference reference ∧ reference.text = id := by
  obtain ⟨shape, body, output, form, readBody, given, target, reference, read, formTarget, same⟩ :=
    named
  exact ⟨reference, ⟨target, ⟨shape, body, output, form, readBody, given, read⟩, formTarget⟩, same⟩

/-- The name of an output is inside its operation. -/
theorem HasReference.occurs (has : operation.HasReference reference) :
    reference.tree.Occurs operation.decl.tree := by
  obtain ⟨target, has, form⟩ := has
  obtain ⟨output, occurs, child⟩ := has.exists_parent
  rw [← OperationTarget.tree_form, form] at child
  exact occurs.child child

end ShapeRecord

/-- The kinds of the nodes that unsupported features are on, or right inside of. -/
def Kind.ends : List Kind := [.applyStatement, .operationInput, .operationOutput]

/-- The rules that call neither statements nor inputs and outputs. -/
def Rule.insideEnds : List Rule :=
  outsideStatements.filter fun name =>
    !([.operationBody, .operationInput, .operationOutput] : List Rule).contains name

/-- Of `apply` statements, inputs and outputs, none is inside another. -/
theorem Kind.bars_ends : Kind.Bars Rule.insideEnds Kind.ends Kind.ends := by decide

theorem Role.kind_mem_ends (role : Role) : role.kind ∈ Kind.ends := by cases role <;> decide

namespace ShapeIndex

variable {index : ShapeIndex} {lines : LineIndex} {operation : ShapeRecord} {role : Role}
  {method : Method} {reports : List Report}

/-! ## Methods -/

/-- A method is made of what the body of its operation says. -/
theorem resolveMethod_of_body {shape : OperationShape} {body : OperationBody}
    (form : operation.operation? = some shape) (readBody : OperationShape.body shape = .ok body)
    (success : index.resolveMethod lines operation = .ok (method, reports)) :
    ∃ fromInput fromOutput,
      index.resolveParameters lines operation.name body = .ok (method.parameters, fromInput) ∧
      index.resolveReturnType lines operation.name body = .ok (method.returnType, fromOutput) ∧
      reports = fromInput ++ fromOutput := by
  unfold resolveMethod at success
  rw [form] at success
  obtain ⟨⟨parameters, returnType⟩, _, _, signed, final, rfl⟩ := bind_eq_ok_iff.mp success
  cases final
  obtain ⟨body', readBody', signed⟩ := read_bind_eq_ok_iff.mp signed
  cases readBody.symm.trans readBody'
  obtain ⟨_, fromInput, _, first, rest, rfl⟩ := bind_eq_ok_iff.mp signed
  obtain ⟨_, fromOutput, _, second, final, rfl⟩ := bind_eq_ok_iff.mp rest
  cases final
  exact ⟨fromInput, fromOutput, first, second, by simp⟩

/-- A structure in place comes to no parameters, or to no return type, and is reported. -/
theorem resolveMethod_of_inline {shape : InlineAggregateShape}
    (has : operation.HasInline role shape)
    (success : index.resolveMethod lines operation = .ok (method, reports)) :
    (role = .input → method.parameters = []) ∧ (role = .output → method.returnType = none) ∧
      ⟨.inline role operation.name, shape.span⟩ ∈ reports := by
  obtain ⟨target, has, form⟩ := has
  cases role with
  | input =>
    obtain ⟨_, body, input, declared, readBody, given, read⟩ := has
    obtain ⟨fromInput, fromOutput, first, -, rfl⟩ := resolveMethod_of_body declared readBody success
    unfold resolveParameters at first
    rw [given] at first
    obtain ⟨_, read', first⟩ := read_bind_eq_ok_iff.mp first
    cases read.symm.trans read'
    rw [form] at first
    obtain ⟨none, rfl⟩ := Prod.mk.inj (Except.ok.inj first)
    exact ⟨fun _ => none.symm, nofun, List.mem_append_left _ (List.mem_singleton_self _)⟩
  | output =>
    obtain ⟨_, body, output, declared, readBody, given, read⟩ := has
    obtain ⟨fromInput, fromOutput, -, second, rfl⟩ :=
      resolveMethod_of_body declared readBody success
    unfold resolveReturnType at second
    rw [given] at second
    obtain ⟨_, read', second⟩ := read_bind_eq_ok_iff.mp second
    cases read.symm.trans read'
    rw [form] at second
    obtain ⟨none, rfl⟩ := Prod.mk.inj (Except.ok.inj second)
    exact ⟨nofun, fun _ => none.symm, List.mem_append_right _ (List.mem_singleton_self _)⟩

/-- A named output comes to the structure it names, or is reported. -/
theorem resolveMethod_of_reference {reference : ShapeId} (has : operation.HasReference reference)
    (success : index.resolveMethod lines operation = .ok (method, reports)) :
    (∃ record own, index.find? .structureShape reference.text = some record ∧
        operation.HasOutputTraits own ∧
        method.returnType = some
          { typeName := record.name
            rules := Constraint.ofTraits (index.traitsOf record.name ++ own)
            location := lines.locate reference.span }) ∨
      index.find? .structureShape reference.text = none ∧ method.returnType = none ∧
        ⟨.unknownReturnType reference.text operation.name, reference.span⟩ ∈ reports := by
  obtain ⟨target, ⟨shape, body, output, declared, readBody, given, read⟩, form⟩ := has
  obtain ⟨fromInput, fromOutput, -, second, rfl⟩ := resolveMethod_of_body declared readBody success
  unfold resolveReturnType at second
  rw [given] at second
  obtain ⟨_, read', second⟩ := read_bind_eq_ok_iff.mp second
  cases read.symm.trans read'
  rw [form] at second
  obtain ⟨part, readPart, second⟩ := read_bind_eq_ok_iff.mp second
  obtain ⟨own, readTraits, second⟩ := read_bind_eq_ok_iff.mp second
  cases found : index.find? .structureShape reference.text with
  | some record =>
    simp only [found] at second
    obtain ⟨returned, rfl⟩ := Prod.mk.inj (Except.ok.inj second)
    exact .inl ⟨record, own, rfl,
      ⟨shape, body, output, part, declared, readBody, given, readPart, readTraits⟩, returned.symm⟩
  | none =>
    simp only [found] at second
    obtain ⟨none, rfl⟩ := Prod.mk.inj (Except.ok.inj second)
    exact .inr ⟨rfl, none.symm, List.mem_append_right _ (List.mem_singleton_self _)⟩

/-! ## Places -/

section Places

variable {text : List Char} {root : Tree} (document : root.IsDocument text)
  (holds : index.IsOf text) (origin : index.IsFrom root)
  (member : operation ∈ index.records .operation)

include document origin member

/-- A structure that is written in place is inside a node for the end of its operation. -/
theorem covers_of_hasInline {shape : InlineAggregateShape}
    (has : operation.HasInline role shape) :
    operation.span.Covers shape.span.start ∧
      ∃ node : Tree, node.kind = role.kind ∧ node.Occurs root ∧
        node.span.Covers shape.span.start := by
  obtain ⟨node, kind, within, child⟩ := has.exists_parent
  have occurs := origin.shapes _ operation member
  have here : shape.span.Covers shape.span.start :=
    View.covers_start document ((within.child child).trans occurs) (by decide)
  exact ⟨(document.sits.of_occurs occurs).covers (within.child child) here, node, kind,
    within.trans occurs,
    (document.sits.of_occurs (within.trans occurs)).covers (.inside child .self) here⟩

include holds

/-- What is found of unsupported features where a structure is written in place is that it is. -/
theorem Finds.eq_of_hasInline {shape : InlineAggregateShape}
    (has : operation.HasInline role shape) {report : Report} (found : index.Finds root report)
    (code : report.finding.code = .unsupportedFeature) (same : report.span = shape.span) :
    report = ⟨.inline role operation.name, shape.span⟩ := by
  obtain ⟨inOperation, node, kind, occurs, inNode⟩ :=
    covers_of_hasInline document origin member has
  have one {other : Tree} (kind' : other.kind ∈ Kind.ends) (occurs' : other.Occurs root)
      (inOther : other.span.Covers shape.span.start) : other = node :=
    Kind.bars_ends.eq_of_covers Kind.bars_ends document occurs' occurs kind'
      (kind ▸ role.kind_mem_ends) inOther inNode
  have inline {other : ShapeRecord} {role' : Role} {shape' : InlineAggregateShape}
      (member' : other ∈ index.records .operation) (has' : other.HasInline role' shape')
      (same : shape'.span = shape.span) :
      (⟨.inline role' other.name, shape'.span⟩ : Report) =
        ⟨.inline role operation.name, shape.span⟩ := by
    obtain ⟨inOther, node', kind', occurs', inNode'⟩ :=
      covers_of_hasInline document origin member' has'
    rw [same] at inOther inNode'
    obtain rfl := eq_of_covers_of_mem_records document holds origin member' member inOther
      inOperation
    rw [one (kind' ▸ role'.kind_mem_ends) occurs' inNode', kind] at kind'
    rw [same, Role.eq_of_kind_eq kind']
  cases found with
  | inlineInput member' has' form => exact inline member' ⟨_, has', form⟩ same
  | inlineOutput member' has' form => exact inline member' ⟨_, has', form⟩ same
  | @applied statement _ listed =>
    have occurs' := origin.applies statement listed
    have applies : statement.tree.kind = .applyStatement := List.mem_singleton.mp statement.accepted
    have here : statement.span.Covers statement.span.start :=
      View.covers_start document occurs' (by decide)
    have among : statement.tree.kind ∈ Kind.ends := by
      rw [applies]
      decide
    rw [one among occurs' (congrArg Span.start same ▸ here), kind] at applies
    cases role <;> cases applies
  | _ => cases code

/-- What is found of return types at the id that an output is, is that it names no structure. -/
theorem Finds.eq_of_hasReference {reference : ShapeId} (has : operation.HasReference reference)
    {report : Report} (found : index.Finds root report)
    (code : report.finding.code = .unknownReturnType) (same : report.span = reference.span) :
    report = ⟨.unknownReturnType reference.text operation.name, reference.span⟩ := by
  cases found with
  | @unknownReturnType other target reference' member' has' form =>
    have named : other.HasReference reference' := ⟨target, has', form⟩
    have covers {record : ShapeRecord} {id : ShapeId} (inside : record ∈ index.records .operation)
        (has : record.HasReference id) : record.span.Covers id.span.start := by
      have occurs := origin.shapes _ record inside
      have here : id.span.Covers id.span.start :=
        View.covers_start document (has.occurs.trans occurs) (by decide)
      exact (document.sits.of_occurs occurs).covers has.occurs here
    have inOther := covers member' named
    rw [show reference'.span = reference.span from same] at inOther
    obtain rfl := eq_of_covers_of_mem_records document holds origin member' member inOther
      (covers member has)
    rw [named.unique has]
  | _ => cases code

end Places

/-! ## Signatures -/

/-- The method is named by the operation, and has what the first input and the first output say.
What they leave unsaid stands once among the diagnostics. -/
structure Signs (index : ShapeIndex) (has : ShapeRecord → List Trait → Prop) (path : String)
    (lines : LineIndex) (diagnostics : List Diagnostic) (operation : ShapeRecord)
    (method : Method) : Prop where
  name : method.name = operation.name
  noParameters : ∀ shape, operation.HasInline .input shape → method.parameters = []
  noReturnType : ∀ shape, operation.HasInline .output shape → method.returnType = none
  inline : ∀ role shape, operation.HasInline role shape →
    diagnostics.filter (fun d =>
        d.code = .unsupportedFeature ∧ d.location = lines.locate shape.span) =
      [.ofReport path lines ⟨.inline role operation.name, shape.span⟩]
  returned : ∀ reference, operation.HasReference reference →
    ∀ record ∈ index.records .structureShape, index.Denotes reference.text record.name →
    ∃ traits own rules, has record traits ∧ operation.HasOutputTraits own ∧
      IsFirstOccurrences rules ((traits ++ own).flatMap Constraint.ofTrait) ∧
      method.returnType =
        some { typeName := record.name, rules, location := lines.locate reference.span }
  unknown : ∀ reference, operation.HasReference reference →
    (∀ record ∈ index.records .structureShape, ¬ index.Denotes reference.text record.name) →
    method.returnType = none ∧
      diagnostics.filter (fun d =>
          d.code = .unknownReturnType ∧ d.location = lines.locate reference.span) =
        [.ofReport path lines
          ⟨.unknownReturnType reference.text operation.name, reference.span⟩]

/-- All interfaces of a model have methods for the listed operations with their signatures, where
structures have these traits. -/
def SignsListed (index : ShapeIndex) (has : ShapeRecord → List Trait → Prop) (path : String)
    (lines : LineIndex) (resolution : Resolution) : Prop :=
  List.Forall₂ (fun service interface => ∃ operations, index.ListsOperations service operations ∧
      List.Forall₂ (index.Signs has path lines resolution.diagnostics) operations
        interface.methods)
    (index.records .service) resolution.model.interfaces

/-- A method has the signature of its operation, and what that leaves unsaid is reported once. -/
theorem signs_of_resolveMethod {text : List Char} {root : Tree} {path : String}
    {has : ShapeRecord → List Trait → Prop} (document : root.IsDocument text)
    (holds : index.FindsByName text) (origin : index.IsFrom root)
    (traits : ∀ record ∈ index.records .structureShape, has record (index.traitsOf record.name))
    (found : ∀ report ∈ reports, index.Finds root report)
    (member : operation ∈ index.records .operation) {own : List Report}
    (success : index.resolveMethod lines operation = .ok (method, own))
    (inside : ∀ report ∈ own, report ∈ reports) :
    index.Signs has path lines (Log.empty.insertReports path lines reports).entries operation
      method where
  name := (resolveMethod_spec success).1
  noParameters _ inline := (resolveMethod_of_inline inline success).1 rfl
  noReturnType _ inline := (resolveMethod_of_inline inline success).2.1 rfl
  inline role shape inline := by
    have reported := inside _ (resolveMethod_of_inline inline success).2.2
    refine Log.filter_entries_eq_singleton reported (decide_eq_true ⟨rfl, rfl⟩) ?_
    intro other member' here
    obtain ⟨code, location⟩ := of_decide_eq_true here
    exact (found other member').eq_of_hasInline document holds.toIsOf origin member inline code
      (LineIndex.span_eq_of_locate_eq location)
  returned reference named record isIn denotes := by
    have looked := (find?_eq_some_iff holds).mpr ⟨isIn, denotes⟩
    rcases resolveMethod_of_reference named success with
      ⟨record', own, looked', written, returned⟩ | ⟨none, -⟩
    · cases looked.symm.trans looked'
      exact ⟨_, own, _, traits record isIn, written, Constraint.isFirstOccurrences_ofTraits _,
        returned⟩
    · cases looked.symm.trans none
  unknown reference named undenoted := by
    rcases resolveMethod_of_reference named success with
      ⟨record, own, looked, -⟩ | ⟨-, none, reported⟩
    · obtain ⟨isIn, denotes⟩ := (find?_eq_some_iff holds).mp looked
      exact absurd denotes (undenoted record isIn)
    · refine ⟨none, ?_⟩
      refine Log.filter_entries_eq_singleton (inside _ reported) (decide_eq_true ⟨rfl, rfl⟩) ?_
      intro other member' here
      obtain ⟨code, location⟩ := of_decide_eq_true here
      exact (found other member').eq_of_hasReference document holds.toIsOf origin member named
        code (LineIndex.span_eq_of_locate_eq location)

/-- The methods of an interface are those of its operations, with their reports. -/
theorem mapM_resolveMethod_of_interfaceOf {options : Options} {service : ShapeRecord}
    {operations : List ShapeRecord} {version : Option String} {interface : Interface}
    {header : ServiceHeader}
    (success : index.interfaceOf lines options service operations version =
      .ok ((interface, header), reports)) :
    ∃ own, operations.mapM (index.resolveMethod lines) = .ok (interface.methods, own) ∧
      ∀ report ∈ own, report ∈ reports := by
  obtain ⟨_, _, later, -, rest, rfl⟩ := bind_eq_ok_iff.mp success
  obtain ⟨methods, own, _, resolved, final, rfl⟩ := bind_eq_ok_iff.mp rest
  cases final
  exact ⟨own, resolved, fun report reported =>
    List.mem_append_right _ (List.mem_append_left _ reported)⟩

/-- The method comes from this operation of the document, with some of the reports. -/
def Resolves (index : ShapeIndex) (lines : LineIndex) (reports : List Report)
    (operation : ShapeRecord) (method : Method) : Prop :=
  operation ∈ index.records .operation ∧
    ∃ own, index.resolveMethod lines operation = .ok (method, own) ∧
      ∀ report ∈ own, report ∈ reports

/-- The interfaces of a model have the methods that come from the listed operations. -/
theorem resolvesListed_of_resolveModel {text : List Char} (holds : index.FindsByName text)
    {path : String} {options : Options} {model : ServiceModel}
    (success : index.resolveModel lines path options = .ok (model, reports)) :
    List.Forall₂ (fun service interface => ∃ operations,
        index.ListsOperations service operations ∧
        List.Forall₂ (index.Resolves lines reports) operations interface.methods)
      (index.records .service) model.interfaces := by
  obtain ⟨services, fromServices, _, _, _, _, served, -, -, -, interfaces, -, all⟩ :=
    resolveModel_spec success
  rw [interfaces, List.forall₂_map_right_iff]
  refine Reporting.forall₂_of_mapM_eq_ok ?_ served
  rintro service member ⟨interface, header⟩ own success
  obtain ⟨_, own', success', -, inModel⟩ := (Reporting.mapM_eq_ok served).1 service member
  cases success.symm.trans success'
  obtain ⟨operations, version, earlier, later, lists, -, made, rfl⟩ :=
    exists_listsOperations holds success
  obtain ⟨fromMethods, methods, inInterface⟩ := mapM_resolveMethod_of_interfaceOf made
  refine ⟨operations, lists, Reporting.forall₂_of_mapM_eq_ok ?_ methods⟩
  intro operation listed method own resolved
  obtain ⟨_, own', same, -, inMethods⟩ := (Reporting.mapM_eq_ok methods).1 operation listed
  cases resolved.symm.trans same
  refine ⟨lists.mem_records operation listed, own, resolved, fun report reported => ?_⟩
  rw [all]
  exact List.mem_append_left _
    (inModel report (List.mem_append_right _ (inInterface report (inMethods report reported))))

end ShapeIndex

/-! ## Documents -/

/-- The methods of a model have the signatures of the operations that the services list, with the
traits in front of the last shape statement with the name of a structure. -/
theorem resolve_signatures {text : String} {events : List Event}
    (accepted : documentEvents text = .ok events) (path : String) (options : Options) :
    ∃ tree idl index statements resolution,
      documentTree text = .ok (.ok tree) ∧ Idl.ofTree tree = .ok idl ∧
      ShapeIndex.ofIdl idl = .ok index ∧ idl.HasShapes statements ∧
      resolve text path options = .ok resolution ∧
      index.SignsListed (fun record => HasLastTraits statements record.name) path (.ofText text)
        resolution := by
  obtain ⟨tree, idl, index, model, reports, made, root, indexed, document, holds, origin, modelled,
    found, resolved⟩ := exists_findings_of_accepted accepted path options
  have byName := ShapeIndex.findsByName_ofIdl document holds indexed
  obtain ⟨statements, shapes⟩ := ShapeIndex.exists_hasShapes indexed
  have keeps := ShapeIndex.keepsLast_ofIdl indexed shapes
  refine ⟨tree, idl, index, statements, _, made, root, indexed, shapes, resolved, ?_⟩
  refine (ShapeIndex.resolvesListed_of_resolveModel byName modelled).imp ?_
  rintro service interface ⟨operations, lists, methods⟩
  refine ⟨operations, lists, methods.imp ?_⟩
  rintro operation method ⟨member, own, resolved, inside⟩
  exact ShapeIndex.signs_of_resolveMethod document byName origin
    (fun record isIn => ShapeIndex.hasLastTraits holds keeps isIn) found member resolved inside

/-- Two operations: one with an input in place and a structure as output, and one that is listed
twice and has an output that is no structure. -/
def signatures : String :=
  "namespace a\nservice V \x7b operations: [O, P, P] \x7d\n" ++
    "operation O \x7b input := \x7b\x7d @uniqueItems output: a#S \x7d\n" ++
    "operation P \x7b output: T \x7d\n@required structure S \x7b\x7d"

/-- The input in place and the unknown output are reported once each, though the second operation
is listed twice. -/
theorem resolve_signatures_listed :
    ∃ events, documentEvents signatures = .ok events ∧
      ∃ tree idl index statements resolution,
        documentTree signatures = .ok (.ok tree) ∧ Idl.ofTree tree = .ok idl ∧
        ShapeIndex.ofIdl idl = .ok index ∧ idl.HasShapes statements ∧
        resolve signatures "a" {} = .ok resolution ∧
        index.SignsListed (fun record => HasLastTraits statements record.name) "a"
          (.ofText signatures) resolution ∧
        resolution.model.interfaces.map (fun interface => interface.methods.map fun method =>
            (method.name, method.parameters,
              method.returnType.map fun returned => (returned.typeName, returned.rules))) =
          [[("O", [], some ("S", [.required, .uniqueItems])), ("P", [], none),
            ("P", [], none)]] ∧
        resolution.diagnostics.map (fun d => (d.code, d.location.startLine)) =
          [(.unsupportedFeature, 3), (.unknownReturnType, 4)] := by
  have computed : (resolve signatures "a" {}).toOption.any (fun resolution =>
      resolution.model.interfaces.map (fun interface => interface.methods.map fun method =>
          (method.name, method.parameters,
            method.returnType.map fun returned => (returned.typeName, returned.rules))) ==
        [[("O", [], some ("S", [.required, .uniqueItems])), ("P", [], none),
          ("P", [], none)]] &&
      resolution.diagnostics.map (fun d => (d.code, d.location.startLine)) ==
        [(.unsupportedFeature, 3), (.unknownReturnType, 4)]) = true := by
    decide +kernel
  obtain ⟨known, found, computed⟩ := (Option.any_eq_true _ _).mp computed
  obtain ⟨methods, reports⟩ := Bool.and_eq_true_iff.mp computed
  have success := Outcome.eq_ok_of_toOption found
  have some : known.model.interfaces ≠ [] := by
    intro none
    simp [none] at methods
  obtain ⟨events, accepted⟩ := exists_events_of_model success (.inr some)
  obtain ⟨tree, idl, index, statements, resolution, made, root, indexed, shapes, resolved, signs⟩ :=
    resolve_signatures accepted "a" {}
  cases success.symm.trans resolved
  exact ⟨events, accepted, tree, idl, index, statements, known, made, root, indexed, shapes,
    resolved, signs, eq_of_beq methods, eq_of_beq reports⟩

/-! ## Traits in front of a structure -/

/-- The reader of a statement sees the constraints of the traits it declares. -/
theorem ShapeStatement.ownConstraints_eq {statement : ShapeStatement} {decl : ShapeDecl}
    {category : ShapeCategory} {part : TraitStatements} {traits : List Trait}
    (read : ShapeStatement.shape statement = .ok decl)
    (filed : ShapeCategory.ofDecl decl = .ok category)
    (readTraits : ShapeStatement.traits statement = .ok part)
    (lowered : Trait.ofStatements part = .ok traits) :
    ShapeStatement.ownConstraints statement =
      .ok (category, traits.flatMap Constraint.ofTrait) := by
  unfold ownConstraints
  rw [read, readTraits]
  simp only [Outcome.ok_bind, filed, lowered]
  rfl

/-- An operation with a structure as output that has a constraint in front of it, and a later list
of the same name. -/
def namesakeOutput : String :=
  "namespace a\nservice V \x7b operations: [O] \x7d\noperation O \x7b output: S \x7d\n" ++
    "@required\nstructure S \x7b\x7d\nlist S \x7b member: String \x7d"

/-- The return type has no constraints, although the trait in front of the structure stands for
one. -/
theorem resolve_namesakeOutput :
    ∃ tree idl index statements resolution,
      documentTree namesakeOutput = .ok (.ok tree) ∧ Idl.ofTree tree = .ok idl ∧
      ShapeIndex.ofIdl idl = .ok index ∧ idl.HasShapes statements ∧
      resolve namesakeOutput "a" {} = .ok resolution ∧
      ¬ index.SignsListed (ShapeRecord.HasOwnTraits statements) "a" (.ofText namesakeOutput)
        resolution := by
  have computed : (resolve namesakeOutput "a" {}).toOption.any (fun resolution =>
      resolution.model.interfaces.map (fun interface => interface.methods.map fun method =>
        method.returnType.map ReturnType.rules) == [[some []]]) = true := by
    decide +kernel
  have written : (indexed? namesakeOutput).any (fun (idl, _) =>
      (Idl.shapeSection idl).toOption.any fun part =>
        (((ShapeSection.statements part).map ShapeStatements.shapes).getD []).all fun statement =>
          (ShapeStatement.ownConstraints statement).toOption.any fun (category, own) =>
            category != .structureShape || own == [.required]) = true := by
    decide +kernel
  obtain ⟨known, success, computed⟩ := (Option.any_eq_true _ _).mp computed
  obtain ⟨⟨idl, index⟩, found, written⟩ := (Option.any_eq_true _ _).mp written
  obtain ⟨events, tree, accepted, made, root, indexed, holds⟩ := exists_events_of_indexed? found
  obtain ⟨part, readPart, each⟩ := (Option.any_eq_true _ _).mp written
  obtain ⟨tree', idl', index', model, reports, made', root', indexed', document, -, -, modelled, -,
    resolved⟩ := exists_findings_of_accepted accepted "a" {}
  cases made.symm.trans made'
  cases root.symm.trans root'
  cases indexed.symm.trans indexed'
  cases (Outcome.eq_ok_of_toOption success).symm.trans resolved
  have shapes : idl.HasShapes _ := ⟨part, Outcome.eq_ok_of_toOption readPart, rfl⟩
  have byName := ShapeIndex.findsByName_ofIdl document holds indexed
  have resolves := ShapeIndex.resolvesListed_of_resolveModel byName modelled
  refine ⟨tree, idl, index, _, _, made, root, indexed, shapes, resolved, fun signs => ?_⟩
  -- There is one interface, and one method, with a return type without constraints.
  obtain ⟨interface, alone, methods⟩ := List.map_eq_singleton_iff.mp (eq_of_beq computed)
  obtain ⟨method, single, unconstrained⟩ := List.map_eq_singleton_iff.mp methods
  obtain ⟨returned, returns, noRules⟩ := Option.map_eq_some_iff.mp unconstrained
  unfold ShapeIndex.SignsListed at signs
  rw [alone] at signs
  rw [show model.interfaces = [interface] from alone] at resolves
  generalize index.records .service = services at signs resolves
  cases resolves with
  | cons resolves none =>
    cases signs with
    | cons signs _ =>
      obtain ⟨operations, lists, resolves⟩ := resolves
      obtain ⟨operations', lists', signs⟩ := signs
      obtain rfl := lists.unique byName lists'
      rw [single] at resolves signs
      cases resolves with
      | @cons operation _ _ _ resolves none =>
        cases signs with
        | cons signs _ =>
          obtain ⟨member, reported, made, -⟩ := resolves
          obtain ⟨id, record, -, output, looked, -⟩ :=
            (ShapeIndex.resolveMethod_spec made).2.2.2 returned returns
          obtain ⟨reference, named, rfl⟩ := output.exists_hasReference
          obtain ⟨isIn, denotes⟩ := (ShapeIndex.find?_eq_some_iff byName).mp looked
          obtain ⟨traits, own, rules, ⟨statement, present, inFront, readDecl, readTraits, lowered⟩,
            -, kept, same⟩ := signs.returned reference named record isIn denotes
          -- The trait in front of the structure gives a constraint that is not there.
          obtain ⟨declared, filed⟩ := holds.isDeclaredIn isIn
          have given := List.all_eq_true.mp each statement present
          rw [ShapeStatement.ownConstraints_eq readDecl declared.category readTraits lowered,
            filed] at given
          have required : traits.flatMap Constraint.ofTrait = [.required] := eq_of_beq given
          have constrained : Constraint.required ∈ rules := by
            rw [kept.mem_iff, List.flatMap_append, required]
            exact List.mem_cons_self
          cases returns.symm.trans same
          cases show rules = [] from noRules
          cases constrained

end ServiceIdl
