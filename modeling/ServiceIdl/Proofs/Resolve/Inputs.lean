import ServiceIdl.Proofs.Model.Log
import ServiceIdl.Proofs.Resolve.Findings
import ServiceIdl.Proofs.Resolve.Integrity

/-!
# Inputs that name no structure

An output that names no structure of the document is reported; an input that names none is
not. Its operation has a method without parameters, and there is no diagnostic where the
name is (`resolve_drops_unknownInput`): all that is reported is on other parts of the document, none
of which holds the input or is inside the name.
-/

namespace ServiceIdl

/-! ## Places that no report is on -/

/-- The rules whose matches hold no input of an operation. -/
def Rule.withoutInputs : List Rule :=
  Rule.all.filter fun name =>
    !([.idl, .shapeSection, .shapeStatements, .shapeStatement, .operationShape, .operationBody,
      .operationInput] : List Rule).contains name

/-- The rules of ids and of what is inside them. -/
def Rule.insideIds : List Rule :=
  [.identifier, .identifierStart, .identifierChars, .namespaceName, .absoluteRootShapeId, .shapeId]

/-- Findings are on nodes that hold no input and are not inside ids. -/
theorem Code.mem_of_mem_hosts {code : Code} {kind : Kind} (host : kind ∈ code.hosts) :
    kind ∈ Rule.withoutInputs.map Kind.ofRule ∧ kind ∉ Rule.insideIds.map Kind.ofRule := by
  have checked : ∀ code ∈ Code.all, ∀ kind ∈ code.hosts,
      kind ∈ Rule.withoutInputs.map Kind.ofRule ∧ kind ∉ Rule.insideIds.map Kind.ofRule := by
    decide
  exact checked code (by cases code <;> decide) kind host

/-- Nothing is found where the target of an input is. -/
theorem ShapeIndex.Finds.span_ne_of_input {text : List Char} {root : Tree}
    (document : root.IsDocument text) {index : ShapeIndex} (origin : index.IsFrom root)
    {report : Report} (found : index.Finds root report) {input : OperationInput}
    (occurs : input.tree.Occurs root) {reference : ShapeId}
    (member : reference.tree ∈ input.tree.children) : report.span ≠ reference.span := by
  obtain ⟨host, part, hostOccurs, hosts, within, same⟩ := found.hosts origin
  obtain ⟨apart, outside⟩ := Code.mem_of_mem_hosts hosts
  have inputKind : input.tree.kind = .operationInput := List.mem_singleton.mp input.accepted
  have referenceKind : reference.tree.kind = .ofRule .shapeId :=
    List.mem_singleton.mp reference.accepted
  have hostIsNode : host.isNode = true := by
    cases host with
    | node => rfl
    | token =>
      have absent : Kind.text ∉ Rule.withoutInputs.map Kind.ofRule := by decide
      exact absurd apart absent
  have referenceOccurs := occurs.child member
  have sits := document.sits
  have stands := document.isMatch reference.tree referenceOccurs
    (Category.isNode_of_mem_kinds reference.accepted)
  -- The byte at the start of the id is in the input, and in the host if the spans are equal.
  have here := stands.covers_start (sits.of_occurs referenceOccurs) referenceKind rfl
  have inInput := (sits.of_occurs occurs).covers (.inside member .self) here
  intro collision
  have inPart : part.span.Covers reference.tree.span.start := by
    rw [same, collision]
    exact here
  have inHost := (sits.of_occurs hostOccurs).covers within inPart
  rcases sits.occurs_or_occurs occurs hostOccurs inInput inHost with inner | inner
  · have kind := Tree.IsPart.kind_of_occurs (by decide) (document.isPart.of_occurs hostOccurs)
      inner (Category.isNode_of_mem_kinds input.accepted) apart
    rw [inputKind] at kind
    exact absurd kind (by decide)
  · cases inner with
    | self =>
      rw [inputKind] at apart
      exact absurd apart (by decide)
    | @inside _ child member' inner =>
      have childOccurs := occurs.child member'
      have inChild := (sits.of_occurs childOccurs).covers inner inHost
      have only := (sits.of_occurs occurs).eq_of_covers member' member inChild here
      rw [only] at inner
      refine outside (Tree.IsPart.kind_of_occurs (by decide)
        (document.isPart.of_occurs referenceOccurs) inner hostIsNode ?_)
      rw [referenceKind]
      decide

/-! ## Inputs -/

namespace ShapeIndex

/-- The first input of the operation is this id, which names no structure of the document. -/
def HasUnknownInput (index : ShapeIndex) (operation : ShapeRecord) (reference : ShapeId) : Prop :=
  ∃ target, operation.HasInput target ∧ OperationTarget.form target = .named reference ∧
    index.find? .structureShape reference.text = none

/-- The first input of the operation, if it is an id that names no structure. -/
def unknownInput? (index : ShapeIndex) (operation : ShapeRecord) : Option ShapeId := do
  let shape ← operation.operation?
  let body ← (OperationShape.body shape).toOption
  let input ← OperationBody.input body
  let target ← (OperationInput.target input).toOption
  match OperationTarget.form target with
  | .inline _ => none
  | .named reference =>
    if index.find? .structureShape reference.text = none then some reference else none

variable {index : ShapeIndex} {lines : LineIndex} {operation : ShapeRecord} {reference : ShapeId}

theorem hasUnknownInput_of_unknownInput? (found : index.unknownInput? operation = some reference) :
    index.HasUnknownInput operation reference := by
  obtain ⟨shape, form, found⟩ := Option.bind_eq_some_iff.mp found
  obtain ⟨body, readBody, found⟩ := Option.bind_eq_some_iff.mp found
  obtain ⟨input, given, found⟩ := Option.bind_eq_some_iff.mp found
  obtain ⟨target, read, found⟩ := Option.bind_eq_some_iff.mp found
  have readBody := Outcome.eq_ok_of_toOption readBody
  have read := Outcome.eq_ok_of_toOption read
  refine ⟨target, ⟨shape, body, input, form, readBody, given, read⟩, ?_⟩
  cases named : OperationTarget.form target with
  | inline shape =>
    rw [named] at found
    cases found
  | named id =>
    rw [named] at found
    obtain ⟨absent, same⟩ := Option.ite_none_right_eq_some.mp found
    cases same
    exact ⟨rfl, absent⟩

/-- Such an operation has no parameters. -/
theorem HasParameters.eq_nil_of_hasUnknownInput {parameters : List Member}
    (has : index.HasParameters lines operation parameters)
    (unknown : index.HasUnknownInput operation reference) : parameters = [] := by
  rcases has with ⟨id, record, _, named, found, -⟩ | ⟨-, none⟩
  · obtain ⟨target, ⟨shape, body, input, form, readBody, given, read⟩, target_, absent⟩ := unknown
    obtain ⟨input', given', target', reference', read', target_', rfl⟩ :=
      (hasNamedInput_iff form readBody).mp named
    cases given.symm.trans given'
    cases read.symm.trans read'
    cases target_.symm.trans target_'
    cases absent.symm.trans found
  · exact none

/-- Nothing is found where such an input is. -/
theorem Finds.span_ne_of_hasUnknownInput {text : List Char} {root : Tree}
    (document : root.IsDocument text) (origin : index.IsFrom root)
    (member : operation ∈ index.records .operation)
    (unknown : index.HasUnknownInput operation reference) {report : Report}
    (found : index.Finds root report) : report.span ≠ reference.span := by
  obtain ⟨target, has, form, -⟩ := unknown
  obtain ⟨input, within, inside⟩ := has.exists_parent
  rw [← OperationTarget.tree_form, form] at inside
  exact found.span_ne_of_input document origin
    (within.trans (origin.shapes _ operation member)) inside

end ShapeIndex

/-- An input that names no structure of the document is dropped without a report: the methods
for its operation have no parameters, and no diagnostic is located where the name is. -/
theorem resolve_drops_unknownInput {text : String} {events : List Event}
    (accepted : documentEvents text = .ok events) (path : String) (options : Options) :
    ∃ tree idl index resolution,
      documentTree text = .ok (.ok tree) ∧ Idl.ofTree tree = .ok idl ∧
      ShapeIndex.ofIdl idl = .ok index ∧ resolve text path options = .ok resolution ∧
      ∀ operation ∈ index.records .operation, ∀ reference,
        index.HasUnknownInput operation reference →
        (∀ interface ∈ resolution.model.interfaces, ∀ method ∈ interface.methods,
          method.name = operation.name → method.parameters = []) ∧
        ∀ d ∈ resolution.diagnostics,
          d.location ≠ (LineIndex.ofText text).locate reference.span := by
  obtain ⟨tree, idl, index, model, reports, made, document, root, indexed, holds, modelled,
    resolved⟩ := exists_model_of_accepted accepted path options
  have origin := ShapeIndex.isFrom_ofIdl indexed
  rw [Idl.ofTree_eq_ok_iff.mp root] at origin
  obtain ⟨statements, shapes⟩ := ShapeIndex.exists_hasShapes indexed
  have distinct := (ShapeIndex.keepsLastShape_ofIdl indexed shapes).nodup_names holds .operation
  refine ⟨tree, idl, index, _, made, root, indexed, resolved, ?_⟩
  intro operation member reference unknown
  constructor
  · intro interface present method inside named
    obtain ⟨operation', listed, named', parameters, -⟩ :=
      ShapeIndex.exists_operation modelled present inside
    have same := List.inj_on_of_nodup_map distinct listed.mem_records member
      (named'.trans named)
    subst same
    exact parameters.eq_nil_of_hasUnknownInput unknown
  · intro d kept collision
    rcases Log.mem_entries_insertReports.mp kept with old | ⟨report, reported, rfl⟩
    · cases old
    · have found := (ShapeIndex.finds_resolveModel origin _ path options _ _ modelled).2 report
        reported
      exact found.span_ne_of_hasUnknownInput document origin member unknown
        (LineIndex.span_eq_of_locate_eq collision)

/-- An operation with an input that is declared nowhere. -/
def undeclaredInput : String :=
  "namespace a\nservice V \x7b operations: [O] \x7d\noperation O \x7b input: T \x7d"

/-- The operation of such a document has an unknown input, and the resolution has no diagnostic. -/
theorem exists_undeclaredInput :
    ∃ events tree idl index resolution operation reference interface method,
      documentEvents undeclaredInput = .ok events ∧
      documentTree undeclaredInput = .ok (.ok tree) ∧ Idl.ofTree tree = .ok idl ∧
      ShapeIndex.ofIdl idl = .ok index ∧ resolve undeclaredInput "a" {} = .ok resolution ∧
      index.IsListed operation ∧ index.HasUnknownInput operation reference ∧
      interface ∈ resolution.model.interfaces ∧ method ∈ interface.methods ∧
      method.name = operation.name ∧ resolution.diagnostics = [] := by
  have computed : (resolve undeclaredInput "a" {}).toOption.any (fun resolution =>
      resolution.model.interfaces.any (fun interface => !interface.methods.isEmpty) &&
        resolution.diagnostics.isEmpty) = true := by
    decide +kernel
  have written : ((documentTree undeclaredInput).toOption.bind Except.toOption).any (fun tree =>
      (Idl.ofTree tree).toOption.any fun idl =>
      (ShapeIndex.ofIdl idl).toOption.any fun index =>
        (index.records .operation).all fun operation =>
          (index.unknownInput? operation).isSome) = true := by
    decide +kernel
  have recognised : (documentEvents undeclaredInput).isOk = true := by decide +kernel
  obtain ⟨events, accepted⟩ := Outcome.exists_ok_of_isOk recognised
  obtain ⟨tree, idl, index, model, reports, made, -, root, indexed, -, modelled, resolved⟩ :=
    exists_model_of_accepted accepted "a" {}
  simp only [made, root, indexed, Except.toOption, Option.bind_some, Option.any_some] at written
  simp only [resolved, Except.toOption, Option.any_some, Bool.and_eq_true, List.any_eq_true,
    List.isEmpty_iff] at computed
  obtain ⟨⟨interface, present, some⟩, quiet⟩ := computed
  obtain ⟨method, inside⟩ := List.exists_mem_of_ne_nil interface.methods (by simpa using some)
  obtain ⟨operation, listed, named, -⟩ := ShapeIndex.exists_operation modelled present inside
  obtain ⟨reference, found⟩ := Option.isSome_iff_exists.mp
    (List.all_eq_true.mp written operation listed.mem_records)
  exact ⟨events, tree, idl, index, _, operation, reference, interface, method, accepted, made,
    root, indexed, resolved, listed, ShapeIndex.hasUnknownInput_of_unknownInput? found, present,
    inside, named.symm, quiet⟩

/-- The method for the operation has no parameters, and nothing is said about the input. -/
theorem resolve_drops_undeclaredInput :
    ∃ events, documentEvents undeclaredInput = .ok events ∧
      ∃ tree idl index resolution operation reference interface method,
        documentTree undeclaredInput = .ok (.ok tree) ∧ Idl.ofTree tree = .ok idl ∧
        ShapeIndex.ofIdl idl = .ok index ∧ resolve undeclaredInput "a" {} = .ok resolution ∧
        index.IsListed operation ∧ index.HasUnknownInput operation reference ∧
        interface ∈ resolution.model.interfaces ∧ method ∈ interface.methods ∧
        method.name = operation.name ∧ method.parameters = [] ∧
        ∀ d ∈ resolution.diagnostics,
          d.location ≠ (LineIndex.ofText undeclaredInput).locate reference.span := by
  obtain ⟨events, tree, idl, index, resolution, operation, reference, interface, method, accepted,
    made, root, indexed, resolved, listed, unknown, present, inside, named, -⟩ :=
    exists_undeclaredInput
  obtain ⟨tree', idl', index', resolution', made', root', indexed', resolved', drops⟩ :=
    resolve_drops_unknownInput accepted "a" {}
  cases made.symm.trans made'
  cases root.symm.trans root'
  cases indexed.symm.trans indexed'
  cases resolved.symm.trans resolved'
  obtain ⟨bare, silent⟩ := drops operation listed.mem_records reference unknown
  exact ⟨events, accepted, tree, idl, index, resolution, operation, reference, interface, method,
    made, root, indexed, resolved, listed, unknown, present, inside, named,
    bare interface present method inside named, silent⟩

/-- One diagnostic is located at each input that names no structure, if a service lists its
operation. -/
def ReportsUnknownInputs (text path : String) (options : Options) : Prop :=
  ∀ tree idl index resolution, documentTree text = .ok (.ok tree) → Idl.ofTree tree = .ok idl →
    ShapeIndex.ofIdl idl = .ok index → resolve text path options = .ok resolution →
    ∀ operation, index.IsListed operation → ∀ reference,
      index.HasUnknownInput operation reference →
      resolution.diagnostics.countP
        (fun d => d.location = (LineIndex.ofText text).locate reference.span) = 1

/-- There is no such diagnostic. -/
theorem not_reportsUnknownInputs_undeclaredInput :
    ¬ ReportsUnknownInputs undeclaredInput "a" {} := by
  intro reports
  obtain ⟨_, tree, idl, index, resolution, operation, reference, _, _, -, made, root, indexed,
    resolved, listed, unknown, -, -, -, quiet⟩ := exists_undeclaredInput
  have once := reports tree idl index resolution made root indexed resolved operation listed
    reference unknown
  rw [quiet] at once
  cases once

end ServiceIdl
