import ServiceIdl.Proofs.Model.Log
import ServiceIdl.Proofs.Resolve.Quiet
import ServiceIdl.Proofs.Resolve.Reporting
import ServiceIdl.Proofs.Resolve.Success
import ServiceIdl.Proofs.Shape.Order
import ServiceIdl.Resolve.Document

/-!
# The order of declarations

The resolver asks an index for shapes and traits by their names only, so what it makes of a
shape does not depend on the order of the shapes. The lists of a model and its diagnostics
come in the order of the index, and are the same up to that order.
-/

namespace ServiceIdl

namespace ShapeIndex.Reorders

variable {index other : ShapeIndex}

/-! ## Types and members -/

theorem typeRef_eq (same : index.Reorders other) : index.typeRef = other.typeRef := by
  funext id
  unfold typeRef
  rw [same.find?_eq]

theorem listRef?_eq (same : index.Reorders other) : index.listRef? = other.listRef? := by
  funext id
  unfold listRef?
  rw [same.find?_eq]

theorem resolveAlias_eq (same : index.Reorders other) :
    index.resolveAlias = other.resolveAlias := by
  funext shape
  unfold resolveAlias
  rw [same.traitsOf_eq]

theorem resolveTypeRef_eq (same : index.Reorders other) :
    index.resolveTypeRef = other.resolveTypeRef := by
  funext id span
  unfold resolveTypeRef
  rw [same.typeRef_eq, same.resolveAlias_eq]

theorem mixinMember?_eq (same : index.Reorders other) :
    index.mixinMember? = other.mixinMember? := by
  funext name mixin
  unfold mixinMember?
  rw [same.lookup?_eq]

theorem memberTarget?_eq (same : index.Reorders other) :
    index.memberTarget? = other.memberTarget? := by
  funext mixins decl
  unfold memberTarget?
  rw [same.mixinMember?_eq]

theorem resolveElement_eq (same : index.Reorders other) :
    index.resolveElement = other.resolveElement := by
  funext shape element
  unfold resolveElement
  rw [same.memberTarget?_eq, same.resolveTypeRef_eq]

theorem resolveList_eq (same : index.Reorders other) : index.resolveList = other.resolveList := by
  funext list
  unfold resolveList
  rw [same.traitsOf_eq, same.resolveElement_eq]

theorem resolveTarget_eq (same : index.Reorders other) :
    index.resolveTarget = other.resolveTarget := by
  funext id span
  unfold resolveTarget
  rw [same.listRef?_eq, same.resolveList_eq, same.resolveTypeRef_eq]

theorem resolveMemberType_eq (same : index.Reorders other) :
    index.resolveMemberType = other.resolveMemberType := by
  funext mixins decl name span
  unfold resolveMemberType
  rw [same.memberTarget?_eq, same.resolveTarget_eq]

theorem resolveMember_eq (same : index.Reorders other) :
    index.resolveMember = other.resolveMember := by
  funext lines mixins member
  unfold resolveMember
  rw [same.resolveMemberType_eq]

theorem resolveMembers_eq (same : index.Reorders other) :
    index.resolveMembers = other.resolveMembers := by
  funext lines record
  unfold resolveMembers
  rw [same.resolveMember_eq]

/-! ## Declarations -/

theorem resolveStructure_eq (same : index.Reorders other) :
    index.resolveStructure = other.resolveStructure := by
  funext lines record
  unfold resolveStructure
  rw [same.resolveMembers_eq, same.traitsOf_eq]

theorem resolveEnum_eq (same : index.Reorders other) : index.resolveEnum = other.resolveEnum := by
  funext lines record
  unfold resolveEnum
  rw [same.traitsOf_eq]

theorem resolveInput_eq (same : index.Reorders other) :
    index.resolveInput = other.resolveInput := by
  funext lines operation input
  unfold resolveInput
  rw [same.find?_eq, same.resolveMembers_eq]

theorem resolveOutput_eq (same : index.Reorders other) :
    index.resolveOutput = other.resolveOutput := by
  funext lines operation output
  unfold resolveOutput
  rw [same.find?_eq, same.traitsOf_eq]

theorem resolveSignature_eq (same : index.Reorders other) :
    index.resolveSignature = other.resolveSignature := by
  funext lines operation shape
  unfold resolveSignature resolveParameters resolveReturnType
  rw [same.resolveInput_eq, same.resolveOutput_eq]

theorem resolveMethod_eq (same : index.Reorders other) :
    index.resolveMethod = other.resolveMethod := by
  funext lines record
  unfold resolveMethod
  rw [same.resolveSignature_eq, same.traitsOf_eq]

/-! ## Services -/

theorem resolveListings_eq (same : index.Reorders other) :
    index.resolveListings = other.resolveListings := by
  funext service body
  unfold resolveListings resolveListing
  rw [same.find?_eq]

theorem bindings_eq (same : index.Reorders other) : index.bindings = other.bindings := by
  funext operations
  unfold bindings
  rw [same.traitsOf_eq]

theorem titleOf?_eq (same : index.Reorders other) : index.titleOf? = other.titleOf? := by
  funext service
  unfold titleOf?
  rw [same.traitsOf_eq]

theorem resolveService_eq (same : index.Reorders other) :
    index.resolveService = other.resolveService := by
  funext lines options record
  unfold resolveService resolveBody
  rw [same.resolveListings_eq, same.bindings_eq, same.resolveMethod_eq, same.titleOf?_eq]

end ShapeIndex.Reorders

/-! ## Models -/

/-- The models have the same interfaces, types and enumerations, maybe in different orders. -/
structure ServiceModel.Reorders (m other : ServiceModel) : Prop where
  interfaces : m.interfaces.Perm other.interfaces
  types : m.types.Perm other.types
  enums : m.enums.Perm other.enums

/-- The resolutions have the same model and the same diagnostics, but for their orders. -/
structure Resolution.Reorders (r other : Resolution) : Prop where
  model : r.model.Reorders other.model
  diagnostics : r.diagnostics.Perm other.diagnostics

/-- Both resolve, and alike but for the order, or neither does. -/
def Resolution.AgreeInOrder : Except Defect Resolution → Except Defect Resolution → Prop
  | .ok r, .ok other => r.Reorders other
  | .error _, .error _ => True
  | _, _ => False

namespace Log

variable {path : String} {lines : LineIndex}

/-- A log of the same reports in another order has the same diagnostics in another order. -/
theorem perm_entries_insertReports {reports others : List Report} (order : reports.Perm others) :
    (empty.insertReports path lines reports).entries.Perm
      (empty.insertReports path lines others).entries := by
  have distinct : empty.entries.Nodup := List.nodup_nil
  rw [List.perm_ext_iff_of_nodup (nodup_entries_insertReports distinct reports)
    (nodup_entries_insertReports distinct others)]
  intro d
  simp only [mem_entries_insertReports, order.mem_iff]

end Log

namespace ShapeIndex

variable {index other : ShapeIndex} {lines : LineIndex} {path : String} {options : Options}

theorem Reorders.exists_resolveModel (same : index.Reorders other) {model : ServiceModel}
    {reports : List Report}
    (success : index.resolveModel lines path options = .ok (model, reports)) :
    ∃ model' reports', other.resolveModel lines path options = .ok (model', reports') ∧
      model.Reorders model' ∧ reports.Perm reports' := by
  obtain ⟨services, _, _, served, behind, rfl⟩ := Reporting.bind_eq_ok_iff.mp success
  obtain ⟨types, _, _, typed, behind', rfl⟩ := Reporting.bind_eq_ok_iff.mp behind
  obtain ⟨enums, _, _, enumerated, behind'', rfl⟩ := Reporting.bind_eq_ok_iff.mp behind'
  obtain ⟨_, _, _, applied, final, rfl⟩ := Reporting.bind_eq_ok_iff.mp behind''
  cases final
  rw [same.resolveService_eq] at served
  rw [same.resolveStructure_eq] at typed
  rw [same.resolveEnum_eq] at enumerated
  rw [same.applies] at applied
  obtain ⟨services', _, served', orderServices, fromServices⟩ :=
    Reporting.perm_of_mapM (same.records .service) served
  obtain ⟨types', _, typed', orderTypes, fromTypes⟩ :=
    Reporting.perm_of_mapM (same.records .structureShape) typed
  obtain ⟨enums', _, enumerated', orderEnums, fromEnums⟩ :=
    Reporting.perm_of_mapM (same.records .enum) enumerated
  refine ⟨_, _, Reporting.bind_eq_ok_iff.mpr ⟨_, _, _, served', Reporting.bind_eq_ok_iff.mpr
    ⟨_, _, _, typed', Reporting.bind_eq_ok_iff.mpr ⟨_, _, _, enumerated',
      Reporting.bind_eq_ok_iff.mpr ⟨_, _, _, applied, rfl, rfl⟩, rfl⟩, rfl⟩, rfl⟩, ?_, ?_⟩
  · exact ⟨orderServices.map _, orderTypes, orderEnums⟩
  · exact fromServices.append (fromTypes.append (fromEnums.append (.refl _)))

theorem Reorders.exists_resolve (same : index.Reorders other) {r : Resolution}
    (success : index.resolve lines path options = .ok r) :
    ∃ r', other.resolve lines path options = .ok r' ∧ r.Reorders r' := by
  unfold ShapeIndex.resolve at success
  cases modelled : index.resolveModel lines path options with
  | error defect =>
    rw [modelled] at success
    cases success
  | ok outcome =>
    rcases outcome with ⟨model, reports⟩
    rw [modelled] at success
    cases success
    obtain ⟨model', reports', modelled', orderModel, order⟩ := same.exists_resolveModel modelled
    refine ⟨_, by rw [ShapeIndex.resolve, modelled'], orderModel, ?_⟩
    exact Log.perm_entries_insertReports order

/-- The order of the shapes in an index only shows in the order of what is made of them. -/
theorem resolve_reordered (same : index.Reorders other) (lines : LineIndex) (path : String)
    (options : Options) :
    (∀ record, index.resolveService lines options record =
        other.resolveService lines options record) ∧
      (∀ record, index.resolveStructure lines record = other.resolveStructure lines record) ∧
      (∀ record, index.resolveEnum lines record = other.resolveEnum lines record) ∧
      Resolution.AgreeInOrder (index.resolve lines path options)
        (other.resolve lines path options) := by
  refine ⟨fun record => ?_, fun record => ?_, fun record => ?_, ?_⟩
  · rw [same.resolveService_eq]
  · rw [same.resolveStructure_eq]
  · rw [same.resolveEnum_eq]
  · cases left : index.resolve lines path options with
    | ok r =>
      obtain ⟨r', right, order⟩ := same.exists_resolve left
      rw [right]
      exact order
    | error defect =>
      cases right : other.resolve lines path options with
      | error defect' => trivial
      | ok r' =>
        obtain ⟨r, resolved, -⟩ := same.symm.exists_resolve right
        rw [left] at resolved
        cases resolved

/-- An operation, a structure and a list, each referring to what comes later. -/
def forwardReferences : String :=
  "namespace a\nservice V \x7b operations: [O] \x7d\noperation O \x7b output: S \x7d\n" ++
    "structure S \x7b x: L \x7d\nlist L \x7b member: T \x7d\nstructure T \x7b\x7d"

/-- With its shapes in the opposite order, the document has the same types in the opposite
order. -/
theorem resolve_reversed_forwardReferences :
    ∃ tree idl index r r', documentTree forwardReferences = .ok (.ok tree) ∧
      Idl.ofTree tree = .ok idl ∧ ShapeIndex.ofIdl idl = .ok index ∧
      index.Reorders index.reversed ∧
      index.resolve (.ofText forwardReferences) "a" {} = .ok r ∧
      index.reversed.resolve (.ofText forwardReferences) "a" {} = .ok r' ∧ r.Reorders r' ∧
      r.model.types.map StructureType.name = ["S", "T"] ∧
      r'.model.types.map StructureType.name = ["T", "S"] := by
  have computed : (indexed? forwardReferences).any (fun (_, index) =>
      (index.resolve (.ofText forwardReferences) "a" {}).toOption.any (fun r =>
        r.model.types.map StructureType.name == ["S", "T"]) &&
      (index.reversed.resolve (.ofText forwardReferences) "a" {}).toOption.any fun r =>
        r.model.types.map StructureType.name == ["T", "S"]) = true := by
    decide +kernel
  obtain ⟨⟨idl, index⟩, found, computed⟩ := (Option.any_eq_true _ _).mp computed
  obtain ⟨-, tree, -, made, root, indexed, -⟩ := exists_events_of_indexed? found
  obtain ⟨forwards, backwards⟩ := Bool.and_eq_true_iff.mp computed
  obtain ⟨r, resolved, types⟩ := (Option.any_eq_true _ _).mp forwards
  obtain ⟨r', resolved', types'⟩ := (Option.any_eq_true _ _).mp backwards
  have resolved := Outcome.eq_ok_of_toOption resolved
  have resolved' := Outcome.eq_ok_of_toOption resolved'
  obtain ⟨statements, shapes⟩ := exists_hasShapes indexed
  have same := reorders_reversed (keepsLastShape_ofIdl indexed shapes).distinct
  obtain ⟨-, -, -, agree⟩ := resolve_reordered same (.ofText forwardReferences) "a" {}
  rw [resolved, resolved'] at agree
  exact ⟨tree, idl, index, r, r', made, root, indexed, same, resolved, resolved', agree,
    eq_of_beq types, eq_of_beq types'⟩

end ShapeIndex

end ServiceIdl
