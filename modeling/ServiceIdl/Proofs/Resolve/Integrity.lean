import Mathlib.Data.List.Count
import ServiceIdl.Proofs.Resolve.Reporting
import ServiceIdl.Proofs.Resolve.Steps
import ServiceIdl.Proofs.Shape.Last

/-!
# References within a model

What one part of a model says about another is there: bound methods are methods of their
interface, return types are types, and parameters are the properties of a type
(`ServiceModel.IsIntact`). A name is that of one type and of one enumeration at most, but it
can be both, if the document declares it as both.
-/

namespace ServiceIdl

variable {text : List Char} {index : ShapeIndex} {lines : LineIndex} {path : String}
  {options : Options} {model : ServiceModel} {reports : List Report}

/-! ## Intact models -/

/-- The parameters of the operation's method are the properties of the type of the structure
that its input names, if it names one of the document; otherwise there are none. -/
def ServiceModel.HasParameters (model : ServiceModel) (index : ShapeIndex)
    (operation : ShapeRecord) (parameters : List Member) : Prop :=
  (∃ id structure_ type, operation.HasNamedInput id ∧
    index.find? .structureShape id = some structure_ ∧ type ∈ model.types ∧
    type.name = structure_.name ∧ parameters = type.properties) ∨
  (∀ id, operation.HasNamedInput id → index.find? .structureShape id = none) ∧ parameters = []

/-- The parts of the model of a document refer to each other as they should. -/
structure ServiceModel.IsIntact (statements : List ShapeStatement) (index : ShapeIndex)
    (model : ServiceModel) : Prop where
  bindings : ∀ interface ∈ model.interfaces, ∀ p ∈ interface.httpPaths, ∀ bound ∈ p.methods,
    ∃ method ∈ interface.methods, bound.name = method.name
  returned : ∀ interface ∈ model.interfaces, ∀ method ∈ interface.methods, ∀ returned,
    method.returnType = some returned →
    model.types.countP (fun type => type.name = returned.typeName) = 1
  types : (model.types.map StructureType.name).Nodup
  enums : (model.enums.map EnumType.name).Nodup
  /-- A type and an enumeration have one name exactly if the document declares both. -/
  shared : ∀ name,
    name ∈ model.types.map StructureType.name ∧ name ∈ model.enums.map EnumType.name ↔
      (∃ statement ∈ statements, ∃ record,
        ShapeStatement.DeclaresUnder (.structureShape, name) statement record) ∧
      ∃ statement ∈ statements, ∃ record,
        ShapeStatement.DeclaresUnder (.enum, name) statement record
  parameters : ∀ interface ∈ model.interfaces, ∀ method ∈ interface.methods,
    ∃ operation ∈ index.records .operation, operation.name = method.name ∧
      model.HasParameters index operation method.parameters

/-! ## Names -/

/-- Steps that keep a value in each element keep the list of these values. -/
theorem map_eq_of_mapM {α β γ : Type} {compute : α → Reporting β} {f : α → γ} {g : β → γ}
    {as : List α} {bs : List β}
    (alike : ∀ a b own, compute a = .ok (b, own) → g b = f a)
    (success : as.mapM compute = .ok (bs, reports)) : bs.map g = as.map f :=
  map_eq_of_forall₂ (Reporting.forall₂_of_mapM_eq_ok (fun a _ => alike a) success)

namespace ShapeIndex

/-- The types of a model have the names of the structures. -/
theorem names_of_types
    (success : index.resolveModel lines path options = .ok (model, reports)) :
    model.types.map StructureType.name =
      (index.records .structureShape).map ShapeRecord.name := by
  obtain ⟨_, _, _, _, _, _, -, typed, -⟩ := resolveModel_spec success
  exact map_eq_of_mapM (fun record type own resolved => (resolveStructure_spec resolved).1) typed

/-- The enumerations of a model have the names of those of the document. -/
theorem names_of_enums
    (success : index.resolveModel lines path options = .ok (model, reports)) :
    model.enums.map EnumType.name = (index.records .enum).map ShapeRecord.name := by
  obtain ⟨_, _, _, _, _, _, -, -, enumerated, -⟩ := resolveModel_spec success
  refine map_eq_of_mapM (fun record enum own resolved => ?_) enumerated
  exact (resolveEnum_spec (Reporting.lift_eq_ok_iff.mp resolved).1).1

/-- Every structure of the document has a type. -/
theorem exists_type (success : index.resolveModel lines path options = .ok (model, reports))
    {record : ShapeRecord} (member : record ∈ index.records .structureShape) :
    ∃ type ∈ model.types, type.name = record.name ∧
      ∃ own, index.resolveMembers lines record = .ok (type.properties, own) := by
  obtain ⟨_, _, _, _, _, _, -, typed, -⟩ := resolveModel_spec success
  obtain ⟨type, own, resolved, isIn, -⟩ := (Reporting.mapM_eq_ok typed).1 record member
  obtain ⟨named, -, -, members⟩ := resolveStructure_spec resolved
  exact ⟨type, isIn, named, own, members⟩

/-! ## Interfaces -/

/-- The interfaces of a model are those of operations that services list. -/
theorem exists_operations (success : index.resolveModel lines path options = .ok (model, reports))
    {interface : Interface} (member : interface ∈ model.interfaces) :
    ∃ (operations : List ShapeRecord) (own : List Report),
      (∀ operation ∈ operations, index.IsListed operation) ∧
      operations.mapM (index.resolveMethod lines) = .ok (interface.methods, own) ∧
      ∀ p ∈ interface.httpPaths, ∀ bound ∈ p.methods, ∃ operation ∈ operations,
        bound.name = operation.name := by
  obtain ⟨services, _, _, _, _, _, served, -, -, -, interfaces, -⟩ := resolveModel_spec success
  rw [interfaces] at member
  obtain ⟨⟨interface, header⟩, present, rfl⟩ := List.mem_map.mp member
  obtain ⟨service, filed, _, resolved⟩ := (Reporting.mapM_eq_ok served).2.1 _ present
  obtain ⟨operations, version, _, listed, made⟩ := exists_interfaceOf resolved
  obtain ⟨⟨own, methods⟩, paths, -⟩ := interfaceOf_spec made
  refine ⟨operations, own, ?_, methods, paths⟩
  intro operation inside
  obtain ⟨id, lists, found⟩ := (listed operation).mp inside
  exact ⟨service, filed, id, lists, found⟩

/-- What a service lists is an operation of the index. -/
theorem IsListed.mem_records {operation : ShapeRecord} (listed : index.IsListed operation) :
    operation ∈ index.records .operation := by
  obtain ⟨_, -, _, -, found⟩ := listed
  exact mem_records_of_find? found

/-- The methods of an interface are those of operations that services list. -/
theorem exists_operation (success : index.resolveModel lines path options = .ok (model, reports))
    {interface : Interface} (member : interface ∈ model.interfaces) {method : Method}
    (inside : method ∈ interface.methods) :
    ∃ operation, index.IsListed operation ∧ operation.name = method.name ∧
      index.HasParameters lines operation method.parameters ∧
      ∀ returned, method.returnType = some returned → index.HasReturnType operation returned := by
  obtain ⟨operations, _, listed, resolved, -⟩ := exists_operations success member
  obtain ⟨operation, present, _, computed⟩ := (Reporting.mapM_eq_ok resolved).2.1 method inside
  obtain ⟨named, -, parameters, returned⟩ := resolveMethod_spec computed
  exact ⟨operation, listed operation present, named.symm, parameters, returned⟩

/-- Bound methods are methods of their interface. -/
theorem exists_method_of_bound
    (success : index.resolveModel lines path options = .ok (model, reports))
    {interface : Interface} (member : interface ∈ model.interfaces) {p : HttpPath}
    (present : p ∈ interface.httpPaths) {bound : HttpMethod} (inside : bound ∈ p.methods) :
    ∃ method ∈ interface.methods, bound.name = method.name := by
  obtain ⟨operations, _, -, resolved, paths⟩ := exists_operations success member
  obtain ⟨operation, listed, named⟩ := paths p present bound inside
  obtain ⟨method, _, computed, isIn, -⟩ := (Reporting.mapM_eq_ok resolved).1 operation listed
  exact ⟨method, isIn, named.trans (resolveMethod_spec computed).1.symm⟩

/-- A structure is resolved alike for its type and for the parameters of an operation. -/
theorem HasParameters.of_model
    (success : index.resolveModel lines path options = .ok (model, reports))
    {operation : ShapeRecord} {parameters : List Member}
    (has : index.HasParameters lines operation parameters) :
    model.HasParameters index operation parameters := by
  rcases has with ⟨id, record, _, named, found, members⟩ | nothing
  · obtain ⟨type, isIn, same, _, members'⟩ := exists_type success (mem_records_of_find? found)
    cases members.symm.trans members'
    exact .inl ⟨id, record, type, named, found, isIn, same, rfl⟩
  · exact .inr nothing

/-! ## Models -/

theorem isIntact_of_resolveModel {statements : List ShapeStatement} (holds : index.IsOf text)
    (keeps : KeepsLastShape statements index)
    (success : index.resolveModel lines path options = .ok (model, reports)) :
    model.IsIntact statements index := by
  have types := names_of_types success
  have enums := names_of_enums success
  have distinct : (model.types.map StructureType.name).Nodup := by
    rw [types]
    exact keeps.nodup_names holds .structureShape
  refine ⟨?_, ?_, distinct, ?_, ?_, ?_⟩
  · intro interface member p present bound inside
    exact exists_method_of_bound success member present inside
  · intro interface member method inside returned given
    obtain ⟨operation, -, -, -, output⟩ := exists_operation success member inside
    obtain ⟨id, record, own, -, found, named, -⟩ := output returned given
    obtain ⟨type, isIn, same, -⟩ := exists_type success (mem_records_of_find? found)
    have listed : returned.typeName ∈ model.types.map StructureType.name :=
      List.mem_map.mpr ⟨type, isIn, same.trans named.symm⟩
    have once := List.count_eq_one_of_mem distinct listed
    rw [List.count, List.countP_map] at once
    exact once
  · rw [enums]
    exact keeps.nodup_names holds .enum
  · intro name
    rw [types, enums, keeps.mem_names_iff holds, keeps.mem_names_iff holds]
  · intro interface member method inside
    obtain ⟨operation, listed, named, parameters, -⟩ := exists_operation success member inside
    exact ⟨operation, listed.mem_records, named, parameters.of_model success⟩

end ShapeIndex

/-- The model of every document is intact. -/
theorem resolve_isIntact {text : String} {events : List Event}
    (accepted : documentEvents text = .ok events) (path : String) (options : Options) :
    ∃ tree idl index statements resolution,
      documentTree text = .ok (.ok tree) ∧ Idl.ofTree tree = .ok idl ∧
      ShapeIndex.ofIdl idl = .ok index ∧ idl.HasShapes statements ∧
      resolve text path options = .ok resolution ∧ resolution.model.IsIntact statements index := by
  obtain ⟨tree, made, document⟩ := exists_documentTree accepted
  obtain ⟨idl, index, root, indexed, holds⟩ := exists_index_of_isDocument document
  obtain ⟨statements, shapes⟩ := ShapeIndex.exists_hasShapes indexed
  obtain ⟨model, reports, modelled, -⟩ :=
    ShapeIndex.succeeds_resolveModel holds (.ofText text) path options
  have keeps := ShapeIndex.keepsLastShape_ofIdl indexed shapes
  exact ⟨tree, idl, index, statements, _, made, root, indexed, shapes,
    resolve_eq made root indexed modelled,
    ShapeIndex.isIntact_of_resolveModel holds keeps modelled⟩

/-- A bound operation with an input and an output. -/
def boundOperation : String :=
  "namespace a\nservice V \x7b operations: [O] \x7d\n@http(method: \"GET\", uri: \"/o\")\n" ++
    "operation O \x7b input: S output: T \x7d\nstructure S \x7b x: String \x7d\n" ++
    "structure T \x7b\x7d\nenum E \x7b X \x7d"

/-- The model of such a document is intact, with a bound operation, a parameter and a return type.
-/
theorem resolve_boundOperation :
    ∃ events, documentEvents boundOperation = .ok events ∧
      ∃ tree idl index statements resolution,
        documentTree boundOperation = .ok (.ok tree) ∧ Idl.ofTree tree = .ok idl ∧
        ShapeIndex.ofIdl idl = .ok index ∧ idl.HasShapes statements ∧
        resolve boundOperation "a" {} = .ok resolution ∧
        resolution.model.IsIntact statements index ∧
        resolution.model.types.map StructureType.name = ["S", "T"] ∧
        resolution.model.interfaces.map (fun interface =>
            interface.httpPaths.flatMap fun p => p.methods.map HttpMethod.name) = [["O"]] ∧
        resolution.model.interfaces.map (fun interface =>
            interface.methods.map fun method =>
              (method.parameters.map Member.name, method.returnType.map ReturnType.typeName)) =
          [[(["x"], some "T")]] := by
  have computed : (resolve boundOperation "a" {}).toOption.any (fun resolution =>
      resolution.model.types.map StructureType.name == ["S", "T"] &&
      (resolution.model.interfaces.map (fun interface =>
          interface.httpPaths.flatMap fun p => p.methods.map HttpMethod.name) == [["O"]] &&
      resolution.model.interfaces.map (fun interface =>
          interface.methods.map fun method =>
            (method.parameters.map Member.name, method.returnType.map ReturnType.typeName)) ==
        [[(["x"], some "T")]])) = true := by
    decide +kernel
  obtain ⟨known, success, computed⟩ := (Option.any_eq_true _ _).mp computed
  have success := Outcome.eq_ok_of_toOption success
  obtain ⟨types, computed⟩ := Bool.and_eq_true_iff.mp computed
  obtain ⟨paths, methods⟩ := Bool.and_eq_true_iff.mp computed
  have some : known.model.types ≠ [] := by
    intro none
    simp [none] at types
  obtain ⟨events, accepted⟩ := exists_events_of_types success some
  obtain ⟨tree, idl, index, statements, resolution, made, root, indexed, shapes, resolved,
    intact⟩ := resolve_isIntact accepted "a" {}
  cases success.symm.trans resolved
  exact ⟨events, accepted, tree, idl, index, statements, known, made, root, indexed, shapes,
    resolved, intact, eq_of_beq types, eq_of_beq paths, eq_of_beq methods⟩

/-- A structure and an enumeration of one name. -/
def typeAndEnum : String := "namespace a\nstructure A \x7b\x7d\nenum A \x7b X \x7d"

/-- A type and an enumeration have the same name. -/
theorem resolve_typeAndEnum :
    ∃ resolution, resolve typeAndEnum "a" {} = .ok resolution ∧
      resolution.model.types.map StructureType.name = ["A"] ∧
      resolution.model.enums.map EnumType.name = ["A"] := by
  have computed : (resolve typeAndEnum "a" {}).toOption.map (fun resolution =>
      (resolution.model.types.map StructureType.name,
        resolution.model.enums.map EnumType.name)) = some (["A"], ["A"]) := by
    decide +kernel
  obtain ⟨resolution, success, names⟩ := Option.map_eq_some_iff.mp computed
  obtain ⟨types, enums⟩ := Prod.mk.inj names
  exact ⟨resolution, Outcome.eq_ok_of_toOption success, types, enums⟩

end ServiceIdl
