import ServiceIdl.Proofs.Resolve.Contents
import ServiceIdl.Proofs.Resolve.Signatures

/-!
# Which parts of a model are where

The parts of a model are located at nodes of one tree, so their locations nest as these do: those
of interfaces, types and enumerations are apart; inside a type there are those of its properties,
none of them empty and one behind the other, and in the same way those of the values inside an
enumeration; a return type is inside its method, and an operation that is not defined inside an
interface (`resolve_nests`). Locations are compared by their byte offsets.
-/

namespace ServiceIdl

/-! ## Locations -/

namespace Location

/-- The location has a byte. -/
def IsFilled (l : Location) : Prop := l.startOffset < l.endOffset

/-- No byte of the location is outside the other. -/
def Within (l outer : Location) : Prop :=
  outer.startOffset ≤ l.startOffset ∧ l.endOffset ≤ outer.endOffset

/-- The other location does not begin before this one ends. -/
def Before (l later : Location) : Prop := l.endOffset ≤ later.startOffset

/-- The locations do not overlap. -/
def Apart (l other : Location) : Prop := l.Before other ∨ other.Before l

/-- The locations follow each other inside the outer one, and none of them is empty. -/
structure Sequence (outer : Location) (ls : List Location) : Prop where
  filled : ∀ l ∈ ls, l.IsFilled
  within : ∀ l ∈ ls, l.Within outer
  order : ls.Pairwise Before

end Location

/-- The locations of the parts of a model nest. -/
structure Resolution.Nests (r : Resolution) : Prop where
  apart : (r.model.interfaces.map Interface.location ++ r.model.types.map StructureType.location ++
    r.model.enums.map EnumType.location).Pairwise Location.Apart
  properties : ∀ type ∈ r.model.types,
    type.location.Sequence (type.properties.map Member.location)
  values : ∀ enum ∈ r.model.enums, enum.location.Sequence (enum.values.map EnumValue.location)
  returnTypes : ∀ interface ∈ r.model.interfaces, ∀ method ∈ interface.methods, ∀ returned,
    method.returnType = some returned → returned.location.Within method.location
  undefined : ∀ d ∈ r.diagnostics, d.code = .operationNotDefined →
    ∃ interface ∈ r.model.interfaces, d.location.Within interface.location

/-! ## Nodes -/

section Nodes

variable {text : List Char} {root tree first : Tree} {lines : LineIndex}

/-- What is inside a tree is located inside it. -/
theorem Tree.Sits.within (sits : tree.Sits text) (occurs : first.Occurs tree) :
    (lines.locate first.span).Within (lines.locate tree.span) := by
  induction occurs with
  | self => exact ⟨Nat.le_refl _, Nat.le_refl _⟩
  | @inside tree child member _ ih =>
    obtain ⟨start, stop⟩ := ih (sits.of_occurs (.inside member .self))
    obtain ⟨start', stop'⟩ := (sits.tiles (isNode_of_mem_children member)).pairwise.2 child member
    exact ⟨Nat.le_trans start' start, Nat.le_trans stop stop'⟩

/-- The children of one category are located one behind the other. -/
theorem View.sequence_many {c d : Category} {v : View c} (document : root.IsDocument text)
    (outer : tree.Occurs root) (occurs : v.tree.Occurs tree) (read : Kind.Read d.kinds) :
    (lines.locate tree.span).Sequence ((v.many d).map fun w => lines.locate w.span) where
  filled := by
    refine List.forall_mem_map.mpr fun w member => ?_
    exact (View.covers_start document ((View.occurs_of_mem_many occurs member).trans outer) read).2
  within := by
    refine List.forall_mem_map.mpr fun w member => ?_
    exact (document.sits.of_occurs outer).within (View.occurs_of_mem_many occurs member)
  order := by
    have sits := document.sits.of_occurs (occurs.trans outer)
    have behind := (sits.tiles (Category.isNode_of_mem_kinds v.accepted)).pairwise.1
    rw [List.pairwise_map]
    refine behind.filterMap _ ?_
    intro a b before w same w' same'
    rw [← View.of?_eq_some_iff.mp same, ← View.of?_eq_some_iff.mp same'] at before
    exact before

end Nodes

/-! ## Shapes -/

namespace ShapeIndex

variable {text : List Char} {root : Tree} {index : ShapeIndex} {lines : LineIndex}
  {options : Options} {reports : List Report}

section Places

variable (document : root.IsDocument text) (holds : index.IsOf text) (origin : index.IsFrom root)

include document origin

theorem covers_record_start {category : ShapeCategory} {record : ShapeRecord}
    (member : record ∈ index.records category) : record.span.Covers record.span.start :=
  View.covers_start document (origin.shapes _ record member) (by decide)

include holds

/-- Two shapes of a document do not overlap. -/
theorem apart_of_mem_records {category category' : ShapeCategory} {record other : ShapeRecord}
    (member : record ∈ index.records category) (member' : other ∈ index.records category')
    (different : record ≠ other) :
    (lines.locate record.span).Apart (lines.locate other.span) := by
  have here := covers_record_start document origin member
  have here' := covers_record_start document origin member'
  by_contra overlapping
  obtain ⟨behind, before⟩ := not_or.mp overlapping
  have behind : other.span.start < record.span.stop := Nat.lt_of_not_le behind
  have before : record.span.start < other.span.stop := Nat.lt_of_not_le before
  -- Both cover the byte where the later one of them begins.
  have one {offset : Nat} (here : record.span.Covers offset)
      (here' : other.span.Covers offset) : record = other :=
    eq_of_covers_of_mem_records document holds origin member member' here here'
  rcases Nat.le_total record.span.start other.span.start with first | first
  · exact different (one ⟨first, behind⟩ here')
  · exact different (one here ⟨first, before⟩)

/-- Different lists of shapes, each without repetitions, are apart as one list. -/
theorem pairwise_apart_of_records {categories : List ShapeCategory} (distinct : categories.Nodup)
    (names : ∀ category ∈ categories, ((index.records category).map ShapeRecord.name).Nodup) :
    ((categories.flatMap index.records).map fun record => lines.locate record.span).Pairwise
      Location.Apart := by
  have nodup : (categories.flatMap index.records).Nodup := by
    refine List.nodup_flatMap.mpr ⟨fun category listed => (names category listed).of_map, ?_⟩
    refine distinct.imp fun {category category'} different record member member' => ?_
    exact different ((holds.isDeclaredIn member).2.symm.trans (holds.isDeclaredIn member').2)
  rw [List.pairwise_map]
  refine nodup.imp_of_mem fun {record other} member member' different => ?_
  obtain ⟨category, -, inside⟩ := List.mem_flatMap.mp member
  obtain ⟨category', -, inside'⟩ := List.mem_flatMap.mp member'
  exact apart_of_mem_records document holds origin inside inside' different

end Places

/-! ## Types and enumerations -/

section Parts

variable (document : root.IsDocument text) (origin : index.IsFrom root)

include document origin

/-- The members of a structure stand inside of it, one behind the other. -/
theorem sequence_of_isBuiltFrom_structure {record : ShapeRecord}
    (member : record ∈ index.records .structureShape) {type : StructureType}
    (built : type.IsBuiltFrom index lines record.name record.decl) :
    type.location.Sequence (type.properties.map Member.location) := by
  obtain ⟨shape, members, form, read, each⟩ := built.properties
  have occurs : members.tree.Occurs record.decl.tree :=
    View.occurs_of_required (ShapeDecl.occurs_of_form .self form) read
  have locations : type.properties.map Member.location =
      (ShapeMembers.members members).map fun member => lines.locate member.span := by
    refine map_eq_of_forall₂ (each.imp ?_)
    rintro member property ⟨own, success⟩
    obtain ⟨_, _, _, _, _, _, -, -, -, -, -, rfl, -⟩ := resolveMember_spec success
    rfl
  rw [built.located, locations]
  exact View.sequence_many document (origin.shapes _ record member) occurs (by decide)

theorem sequence_of_isBuiltFrom_enum {record : ShapeRecord}
    (member : record ∈ index.records .enum) {enum : EnumType}
    (built : enum.IsBuiltFrom lines record.name record.decl) :
    enum.location.Sequence (enum.values.map EnumValue.location) := by
  obtain ⟨shape, _, members, form, -, read, -, each⟩ := built.values
  have occurs : members.tree.Occurs record.decl.tree :=
    View.occurs_of_required (ShapeDecl.occurs_of_form .self form) read
  have locations : enum.values.map EnumValue.location =
      (EnumShapeMembers.members members).map fun member => lines.locate member.span :=
    map_eq_of_forall₂ (each.imp fun member value built => built.2.located)
  rw [built.located, locations]
  exact View.sequence_many document (origin.shapes _ record member) occurs (by decide)

end Parts

/-- The interfaces, types and enumerations of a model come from the services, structures and
enumerations of the index. -/
theorem isBuiltFrom_of_resolveModel (holds : index.IsOf text) {path : String}
    {model : ServiceModel}
    (success : index.resolveModel lines path options = .ok (model, reports)) :
    List.Forall₂ (fun record interface =>
        interface.IsBuiltFrom index lines options record.name record.decl)
      (index.records .service) model.interfaces ∧
    List.Forall₂ (fun record type => record ∈ index.records .structureShape ∧
        type.IsBuiltFrom index lines record.name record.decl)
      (index.records .structureShape) model.types ∧
    List.Forall₂ (fun record enum => record ∈ index.records .enum ∧
        enum.IsBuiltFrom lines record.name record.decl)
      (index.records .enum) model.enums := by
  obtain ⟨services, _, _, _, _, _, served, typed, enumerated, -, interfaces, -, -⟩ :=
    resolveModel_spec success
  refine ⟨?_, ?_, ?_⟩
  · rw [interfaces, List.forall₂_map_right_iff]
    refine Reporting.forall₂_of_mapM_eq_ok ?_ served
    intro record member service own success
    exact isBuiltFrom_of_resolveService (holds.isDeclaredIn member).2 success
  · refine Reporting.forall₂_of_mapM_eq_ok ?_ typed
    intro record member type own success
    obtain ⟨declared, filed⟩ := holds.isDeclaredIn member
    exact ⟨member, isBuiltFrom_of_resolveStructure declared filed success⟩
  · refine Reporting.forall₂_of_mapM_eq_ok ?_ enumerated
    intro record member enum own success
    obtain ⟨declared, filed⟩ := holds.isDeclaredIn member
    obtain ⟨success, -⟩ := Reporting.lift_eq_ok_iff.mp success
    exact ⟨member, isBuiltFrom_of_resolveEnum declared filed success⟩

/-! ## Methods -/

theorem location_of_resolveMethod {operation : ShapeRecord} {method : Method}
    (success : index.resolveMethod lines operation = .ok (method, reports)) :
    method.location = lines.locate operation.span := by
  unfold resolveMethod at success
  cases form : operation.operation? with
  | none =>
    rw [form] at success
    cases success
    rfl
  | some shape =>
    rw [form] at success
    obtain ⟨_, _, _, -, final, -⟩ := Reporting.bind_eq_ok_iff.mp success
    cases final
    rfl

/-- A return type is located at the output that names it. -/
theorem within_of_resolveMethod (document : root.IsDocument text) (origin : index.IsFrom root)
    {operation : ShapeRecord} (member : operation ∈ index.records .operation) {method : Method}
    (success : index.resolveMethod lines operation = .ok (method, reports))
    {returned : ReturnType} (returns : method.returnType = some returned) :
    returned.location.Within method.location := by
  obtain ⟨_, _, _, named, -⟩ := (resolveMethod_spec success).2.2.2 returned returns
  obtain ⟨reference, has, -⟩ := named.exists_hasReference
  rw [location_of_resolveMethod success]
  rcases resolveMethod_of_reference has success with ⟨record, own, -, -, same⟩ | ⟨-, none, -⟩
  · cases returns.symm.trans same
    exact (document.sits.of_occurs (origin.shapes _ operation member)).within has.occurs
  · cases returns.symm.trans none

end ShapeIndex

/-! ## Documents -/

/-- The parts of the model of a document are located where the nodes are that they come from, and
so they nest. -/
theorem resolve_nests {text : String} {events : List Event}
    (accepted : documentEvents text = .ok events) (path : String) (options : Options) :
    ∃ resolution, resolve text path options = .ok resolution ∧ resolution.Nests := by
  obtain ⟨tree, idl, index, model, reports, made, root, indexed, document, holds, origin, modelled,
    found, resolved⟩ := exists_findings_of_accepted accepted path options
  have byName := ShapeIndex.findsByName_ofIdl document holds indexed
  obtain ⟨statements, shapes⟩ := ShapeIndex.exists_hasShapes indexed
  have names := (ShapeIndex.keepsLastShape_ofIdl indexed shapes).nodup_names holds
  obtain ⟨served, typed, enumerated⟩ := ShapeIndex.isBuiltFrom_of_resolveModel holds modelled
  refine ⟨_, resolved, ?_, ?_, ?_, ?_, ?_⟩
  · have locations : model.interfaces.map Interface.location ++
          model.types.map StructureType.location ++ model.enums.map EnumType.location =
        ([ShapeCategory.service, .structureShape, .enum].flatMap index.records).map
          fun record => (LineIndex.ofText text).locate record.span := by
      rw [map_eq_of_forall₂ (served.imp fun _ _ interface => interface.located),
        map_eq_of_forall₂ (typed.imp fun _ _ type => type.2.located),
        map_eq_of_forall₂ (enumerated.imp fun _ _ enum => enum.2.located)]
      simp only [List.flatMap_cons, List.flatMap_nil, List.append_nil, List.map_append,
        List.append_assoc]
      rfl
    rw [locations]
    exact ShapeIndex.pairwise_apart_of_records document holds origin (by decide)
      fun category _ => names category
  · intro type present
    obtain ⟨record, -, member, built⟩ := exists_mem_of_forall₂ typed.flip present
    exact ShapeIndex.sequence_of_isBuiltFrom_structure document origin member built
  · intro enum present
    obtain ⟨record, -, member, built⟩ := exists_mem_of_forall₂ enumerated.flip present
    exact ShapeIndex.sequence_of_isBuiltFrom_enum document origin member built
  · intro interface present method inInterface returned returns
    have resolves := ShapeIndex.resolvesListed_of_resolveModel byName modelled
    obtain ⟨_, -, operations, -, each⟩ := exists_mem_of_forall₂ resolves.flip present
    obtain ⟨operation, -, member, own, success, -⟩ :=
      exists_mem_of_forall₂ each.flip inInterface
    exact ShapeIndex.within_of_resolveMethod document origin member success returns
  · intro d kept undefined
    obtain ⟨report, reported, rfl⟩ := Log.mem_entries_insertReports_empty.mp kept
    cases found report reported with
    | operationNotDefined member has listed =>
      obtain ⟨interface, present, built⟩ := exists_mem_of_forall₂ served member
      refine ⟨interface, present, ?_⟩
      rw [built.located]
      exact (document.sits.of_occurs (origin.shapes _ _ member)).within
        (ShapeIndex.occurs_of_hasListing origin member has listed).1
    | _ => cases undefined

/-- One part of each kind, and an operation that is listed but not defined. -/
def nestedParts : String :=
  "namespace a\nservice V \x7b operations: [O, P] \x7d\noperation O \x7b output: S \x7d\n" ++
    "structure S \x7b x: String, y: S \x7d\nenum E \x7b A, B \x7d"

/-- Where the parts of such a document start, and the operation that is not defined. -/
theorem resolve_nests_nestedParts :
    ∃ events, documentEvents nestedParts = .ok events ∧
      ∃ resolution, resolve nestedParts "a" {} = .ok resolution ∧ resolution.Nests ∧
        resolution.model.interfaces.map (fun interface =>
            (interface.methods.map fun method =>
              (method.location.startOffset, method.returnType.map fun returned =>
                returned.location.startOffset), interface.location.startOffset)) =
          [([(45, some 67)], 12)] ∧
        resolution.model.types.map (fun type =>
            (type.location.startOffset, type.properties.map fun property =>
              property.location.startOffset)) = [(71, [85, 96])] ∧
        resolution.model.enums.map (fun enum =>
            (enum.location.startOffset, enum.values.map fun value =>
              value.location.startOffset)) = [(103, [112, 115])] ∧
        resolution.diagnostics.map (fun d => (d.code, d.location.startOffset)) =
          [(.operationNotDefined, 40)] := by
  have computed : (resolve nestedParts "a" {}).toOption.any (fun resolution =>
      resolution.model.interfaces.map (fun interface =>
          (interface.methods.map fun method =>
            (method.location.startOffset, method.returnType.map fun returned =>
              returned.location.startOffset), interface.location.startOffset)) ==
        [([(45, some 67)], 12)] &&
      (resolution.model.types.map (fun type =>
          (type.location.startOffset, type.properties.map fun property =>
            property.location.startOffset)) == [(71, [85, 96])] &&
      (resolution.model.enums.map (fun enum =>
          (enum.location.startOffset, enum.values.map fun value =>
            value.location.startOffset)) == [(103, [112, 115])] &&
      resolution.diagnostics.map (fun d => (d.code, d.location.startOffset)) ==
        [(.operationNotDefined, 40)]))) = true := by
    decide +kernel
  obtain ⟨known, found, computed⟩ := (Option.any_eq_true _ _).mp computed
  obtain ⟨interfaces, computed⟩ := Bool.and_eq_true_iff.mp computed
  obtain ⟨types, computed⟩ := Bool.and_eq_true_iff.mp computed
  obtain ⟨enums, reports⟩ := Bool.and_eq_true_iff.mp computed
  have success := Outcome.eq_ok_of_toOption found
  have some : known.model.types ≠ [] := by
    intro none
    simp [none] at types
  obtain ⟨events, accepted⟩ := exists_events_of_types success some
  obtain ⟨resolution, resolved, nests⟩ := resolve_nests accepted "a" {}
  cases success.symm.trans resolved
  exact ⟨events, accepted, known, resolved, nests, eq_of_beq interfaces, eq_of_beq types,
    eq_of_beq enums, eq_of_beq reports⟩

end ServiceIdl
