import ServiceIdl.Proofs.Model.Paths
import ServiceIdl.Proofs.Resolve.ErrorFree
import ServiceIdl.Resolve.Document

/-!
# What each step of a resolution gives

If a member, a structure, an enumeration, an operation, a service or a whole index is resolved,
what comes of it is known from the parts: one lemma says so for each of them, and nothing else
has to look into these steps.
-/

namespace ServiceIdl

open Reporting (bind_eq_ok_iff read_bind_eq_ok_iff)

/-- The first input of an operation is named by the id. -/
def ShapeRecord.HasNamedInput (operation : ShapeRecord) (id : String) : Prop :=
  ∃ shape body input,
    operation.operation? = some shape ∧ OperationShape.body shape = .ok body ∧
    OperationBody.input body = some input ∧
    OperationTarget.IsNamed (OperationInput.target input) id

namespace ShapeIndex

variable {index : ShapeIndex} {lines : LineIndex} {record : ShapeRecord} {reports : List Report}

/-! ## Members -/

/-- The type of a member is that of the target it finds, or it has none. -/
theorem resolveMemberType_spec {mixins : Option Mixins} {decl : MemberDecl} {name : String}
    {span : Span} {type : ResolvedType}
    (success : index.resolveMemberType mixins decl name span = .ok (type, reports)) :
    index.memberTarget? mixins decl = .ok none ∧ type = .unknown ∧
        reports = [⟨.unexpectedElision name, span⟩] ∨
      ∃ target inner, index.memberTarget? mixins decl = .ok (some target) ∧
        index.resolveTarget target.id span = .ok (inner, reports) ∧
        type = inner.withTraits target.inherited := by
  obtain ⟨found, read, success⟩ := read_bind_eq_ok_iff.mp success
  cases found with
  | none =>
    cases success
    exact .inl ⟨read, rfl, rfl⟩
  | some target =>
    obtain ⟨inner, _, _, typed, final, rfl⟩ := bind_eq_ok_iff.mp success
    cases final
    rw [List.append_nil]
    exact .inr ⟨target, inner, read, typed, rfl⟩

/-- A member in terms of what is read off its node. -/
theorem resolveMember_spec {mixins : Option Mixins} {member : ShapeMember} {m : Member}
    (success : index.resolveMember lines mixins member = .ok (m, reports)) :
    ∃ decl name part own type fromType,
      ShapeMember.decl member = .ok decl ∧ MemberDecl.name decl = .ok name ∧
      ShapeMember.traits member = .ok part ∧ Trait.ofStatements part = .ok own ∧
      index.resolveMemberType mixins decl name.text member.span = .ok (type, fromType) ∧
      m = { name := name.text
            isArray := type.isArray
            isPrimitive := type.isPrimitive
            typeName := type.typeName
            rules := Constraint.ofTraits (type.traits ++ own)
            location := lines.locate member.span } ∧
      reports = fromType ++ Constraint.reports (type.traits ++ own) := by
  obtain ⟨decl, readDecl, success⟩ := read_bind_eq_ok_iff.mp success
  obtain ⟨name, readName, success⟩ := read_bind_eq_ok_iff.mp success
  obtain ⟨part, readPart, success⟩ := read_bind_eq_ok_iff.mp success
  obtain ⟨own, readTraits, success⟩ := read_bind_eq_ok_iff.mp success
  obtain ⟨type, fromType, _, typed, final, rfl⟩ := bind_eq_ok_iff.mp success
  cases final
  exact ⟨decl, name, part, own, type, fromType, readDecl, readName, readPart, readTraits, typed,
    rfl, rfl⟩

/-! ## Structures and enumerations -/

theorem resolveStructure_spec {type : StructureType}
    (success : index.resolveStructure lines record = .ok (type, reports)) :
    type.name = record.name ∧
      type.deprecated = Deprecation.ofTraits? lines (index.traitsOf record.name) ∧
      type.location = lines.locate record.span ∧
      index.resolveMembers lines record = .ok (type.properties, reports) := by
  obtain ⟨properties, _, _, resolved, final, rfl⟩ := bind_eq_ok_iff.mp success
  cases final
  rw [List.append_nil]
  exact ⟨rfl, rfl, rfl, resolved⟩

theorem resolveEnum_spec {enum : EnumType} (success : index.resolveEnum lines record = .ok enum) :
    enum.name = record.name ∧
      enum.deprecated = Deprecation.ofTraits? lines (index.traitsOf record.name) ∧
      enum.location = lines.locate record.span ∧
      ∀ shape, record.enum? = some shape →
        resolveEnumShape lines shape = .ok (enum.kind, enum.values) := by
  unfold resolveEnum at success
  cases form : record.enum? with
  | none =>
    rw [form] at success
    cases success
    exact ⟨rfl, rfl, rfl, by simp⟩
  | some shape =>
    rw [form] at success
    obtain ⟨⟨kind, values⟩, read, final⟩ := Outcome.bind_eq_ok_iff.mp success
    cases final
    refine ⟨rfl, rfl, rfl, fun _ same => ?_⟩
    cases same
    exact read

/-! ## Operations -/

/-- The parameters are the members of the structure that the operation's input names, if it
names one of the document; otherwise there are none. -/
def HasParameters (index : ShapeIndex) (lines : LineIndex) (operation : ShapeRecord)
    (parameters : List Member) : Prop :=
  (∃ id structure_ own, operation.HasNamedInput id ∧
    index.find? .structureShape id = some structure_ ∧
    index.resolveMembers lines structure_ = .ok (parameters, own)) ∨
  (∀ id, operation.HasNamedInput id → index.find? .structureShape id = none) ∧ parameters = []

/-- The return type is the structure that the operation's output names, with the constraints
of the structure in front. -/
def HasReturnType (index : ShapeIndex) (operation : ShapeRecord) (returned : ReturnType) : Prop :=
  ∃ id structure_ own, operation.HasNamedOutput id ∧
    index.find? .structureShape id = some structure_ ∧ returned.typeName = structure_.name ∧
    returned.rules = Constraint.ofTraits (index.traitsOf structure_.name ++ own)

section Signature

variable {shape : OperationShape} {body : OperationBody}

theorem hasNamedInput_iff (found : record.operation? = some shape)
    (read : OperationShape.body shape = .ok body) {id : String} :
    record.HasNamedInput id ↔ ∃ input, OperationBody.input body = some input ∧
      OperationTarget.IsNamed (OperationInput.target input) id := by
  constructor
  · rintro ⟨shape', body', input, found', read', given, named⟩
    cases found.symm.trans found'
    cases read.symm.trans read'
    exact ⟨input, given, named⟩
  · rintro ⟨input, given, named⟩
    exact ⟨shape, body, input, found, read, given, named⟩

/-- The parameters are the members of the structure that is named. -/
theorem resolveParameters_spec (found : record.operation? = some shape)
    (read : OperationShape.body shape = .ok body) {operation : String} {parameters : List Member}
    (success : index.resolveParameters lines operation body = .ok (parameters, reports)) :
    index.HasParameters lines record parameters := by
  unfold HasParameters
  simp only [hasNamedInput_iff found read]
  unfold resolveParameters at success
  cases given : OperationBody.input body with
  | none =>
    rw [given] at success
    cases success
    exact .inr ⟨by simp, rfl⟩
  | some input =>
    rw [given] at success
    obtain ⟨target, readTarget, success⟩ := read_bind_eq_ok_iff.mp success
    cases form : OperationTarget.form target with
    | inline shape =>
      rw [form] at success
      cases success
      refine .inr ⟨?_, rfl⟩
      rintro id ⟨_, same, target', named, readTarget', form', -⟩
      cases same
      cases readTarget.symm.trans readTarget'
      cases form.symm.trans form'
    | named written =>
      rw [form] at success
      have named : OperationTarget.IsNamed (OperationInput.target input) written.text :=
        ⟨target, written, readTarget, form, rfl⟩
      cases looked : index.find? .structureShape written.text with
      | some structure_ =>
        simp only [looked] at success
        exact .inl ⟨_, structure_, reports, ⟨input, rfl, named⟩, looked, success⟩
      | none =>
        simp only [looked] at success
        cases success
        refine .inr ⟨?_, rfl⟩
        rintro id ⟨_, same, target', named', readTarget', form', rfl⟩
        cases same
        cases readTarget.symm.trans readTarget'
        cases form.symm.trans form'
        exact looked

/-- The return type names the structure that is named. -/
theorem resolveReturnType_spec (found : record.operation? = some shape)
    (read : OperationShape.body shape = .ok body) {operation : String}
    {returned : ReturnType}
    (success : index.resolveReturnType lines operation body = .ok (some returned, reports)) :
    index.HasReturnType record returned := by
  unfold resolveReturnType at success
  cases given : OperationBody.output body with
  | none =>
    rw [given] at success
    cases success
  | some output =>
    rw [given] at success
    obtain ⟨target, readTarget, success⟩ := read_bind_eq_ok_iff.mp success
    cases form : OperationTarget.form target with
    | inline shape =>
      rw [form] at success
      cases success
    | named written =>
      rw [form] at success
      obtain ⟨part, -, success⟩ := read_bind_eq_ok_iff.mp success
      obtain ⟨own, -, success⟩ := read_bind_eq_ok_iff.mp success
      cases looked : index.find? .structureShape written.text with
      | none =>
        simp only [looked] at success
        cases success
      | some structure_ =>
        simp only [looked] at success
        cases success
        exact ⟨_, structure_, own, ⟨shape, body, output, found, read, given, target, written,
          readTarget, form, rfl⟩, looked, rfl, rfl⟩

end Signature

theorem resolveMethod_spec {method : Method}
    (success : index.resolveMethod lines record = .ok (method, reports)) :
    method.name = record.name ∧
      method.deprecated = Deprecation.ofTraits? lines (index.traitsOf record.name) ∧
      index.HasParameters lines record method.parameters ∧
      ∀ returned, method.returnType = some returned → index.HasReturnType record returned := by
  unfold resolveMethod at success
  cases form : record.operation? with
  | none =>
    rw [form] at success
    cases success
    refine ⟨rfl, rfl, .inr ⟨?_, rfl⟩, by simp⟩
    rintro id ⟨shape, _, _, found, -⟩
    cases form.symm.trans found
  | some shape =>
    rw [form] at success
    obtain ⟨⟨parameters, returnType⟩, _, _, signed, final, -⟩ := bind_eq_ok_iff.mp success
    cases final
    obtain ⟨body, read, signed⟩ := read_bind_eq_ok_iff.mp signed
    obtain ⟨_, _, _, first, signed, -⟩ := bind_eq_ok_iff.mp signed
    obtain ⟨_, _, _, second, final, -⟩ := bind_eq_ok_iff.mp signed
    cases final
    refine ⟨rfl, rfl, resolveParameters_spec form read first, ?_⟩
    rintro returned rfl
    exact resolveReturnType_spec form read second

/-! ## Services -/

/-- The interface of the operations that a service lists, and what the service says about the
model. -/
def interfaceOf (index : ShapeIndex) (lines : LineIndex) (options : Options) (record : ShapeRecord)
    (operations : List ShapeRecord) (version : Option String) :
    Reporting (Interface × ServiceHeader) := do
  let name := options.interfaceName record.name
  let bindings := index.bindings operations
  let paths := bindings.foldl
    (fun paths (operation, binding) =>
      HttpPaths.add paths lines options.defaultSuccessCode operation binding)
    Table.empty
  Reporting.noting () (bindings.flatMap fun (operation, binding) => binding.reports operation)
  let methods ← operations.mapM (index.resolveMethod lines)
  return (
    { name, httpPaths := HttpPaths.toList paths, methods, location := lines.locate record.span },
    { interface := name, title := index.titleOf? record.name, version })

section Service

variable {options : Options}

theorem resolveService_of_none (form : record.entity? = none) :
    index.resolveService lines options record = index.interfaceOf lines options record [] none := by
  unfold resolveService
  rw [form]
  rfl

theorem resolveService_of_some {shape : EntityShape} (form : record.entity? = some shape) :
    index.resolveService lines options record =
      index.resolveBody record.name shape >>= fun (operations, version) =>
        index.interfaceOf lines options record operations version := by
  unfold resolveService
  rw [form]
  rfl

variable {interface : Interface} {header : ServiceHeader}

/-- The methods of an interface are those of the operations, and so are those of its paths. -/
theorem interfaceOf_spec {operations : List ShapeRecord} {version : Option String}
    (success : index.interfaceOf lines options record operations version =
      .ok ((interface, header), reports)) :
    (∃ own, operations.mapM (index.resolveMethod lines) = .ok (interface.methods, own)) ∧
      (∀ p ∈ interface.httpPaths, ∀ m ∈ p.methods, ∃ operation ∈ operations,
        m.name = operation.name) ∧
      header.title = index.titleOf? record.name ∧
      interface.name = options.interfaceName record.name ∧
      interface.location = lines.locate record.span := by
  obtain ⟨_, _, _, -, success, -⟩ := bind_eq_ok_iff.mp success
  obtain ⟨methods, own, _, resolved, final, -⟩ := bind_eq_ok_iff.mp success
  cases final
  have unbound : HttpPaths.All (fun m => ∃ operation ∈ operations, m.name = operation.name)
      Table.empty := .empty
  refine ⟨⟨own, resolved⟩, (unbound.addAll ?_).toList, rfl, rfl, rfl⟩
  intro bound member
  obtain ⟨operation, present, found⟩ := List.mem_filterMap.mp member
  obtain ⟨binding, -, rfl⟩ := Option.map_eq_some_iff.mp found
  exact ⟨operation, present, rfl⟩

/-- The interface of a service is that of the operations that it lists. -/
theorem exists_interfaceOf
    (success : index.resolveService lines options record = .ok ((interface, header), reports)) :
    ∃ operations version own,
      (∀ operation, operation ∈ operations ↔
        ∃ id, record.Lists id ∧ index.find? .operation id = some operation) ∧
      index.interfaceOf lines options record operations version =
        .ok ((interface, header), own) := by
  cases form : record.entity? with
  | none =>
    rw [resolveService_of_none form] at success
    refine ⟨[], none, reports, ?_, success⟩
    intro operation
    constructor
    · intro member
      cases member
    · rintro ⟨_, ⟨_, _, found, -⟩, -⟩
      cases form.symm.trans found
  | some shape =>
    rw [resolveService_of_some form] at success
    obtain ⟨⟨operations, version⟩, _, own, listed, rest, -⟩ := bind_eq_ok_iff.mp success
    exact ⟨operations, version, own, (resolveBody_spec form listed).1, rest⟩

end Service

/-! ## Models -/

/-- The interfaces, types and enumerations of a model are those of the services, structures
and enumerations of the index, and it has no unions. The reports come from these, in this
order, and from the `apply` statements. -/
theorem resolveModel_spec {path : String} {options : Options} {model : ServiceModel}
    (success : index.resolveModel lines path options = .ok (model, reports)) :
    ∃ services fromServices fromTypes fromEnums fromApplies applied,
      (index.records .service).mapM (index.resolveService lines options) =
        .ok (services, fromServices) ∧
      (index.records .structureShape).mapM (index.resolveStructure lines) =
        .ok (model.types, fromTypes) ∧
      (index.records .enum).mapM
        (fun record => (liftM (index.resolveEnum lines record) : Reporting EnumType)) =
          .ok (model.enums, fromEnums) ∧
      index.applies.mapM reportApply = .ok (applied, fromApplies) ∧
      model.interfaces = services.map Prod.fst ∧ model.unions = [] ∧
      reports = fromServices ++ (fromTypes ++ (fromEnums ++ fromApplies)) := by
  obtain ⟨services, fromServices, _, served, behind, rfl⟩ := bind_eq_ok_iff.mp success
  obtain ⟨types, fromTypes, _, typed, behind', rfl⟩ := bind_eq_ok_iff.mp behind
  obtain ⟨enums, fromEnums, _, enumerated, behind'', rfl⟩ := bind_eq_ok_iff.mp behind'
  obtain ⟨applied, fromApplies, _, reported, final, rfl⟩ := bind_eq_ok_iff.mp behind''
  cases final
  exact ⟨services, fromServices, fromTypes, fromEnums, fromApplies, applied, served, typed,
    enumerated, reported, rfl, rfl, by rw [List.append_nil]⟩

end ShapeIndex

end ServiceIdl
