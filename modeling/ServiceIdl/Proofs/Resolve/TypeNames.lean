import ServiceIdl.Proofs.Resolve.Integrity
import ServiceIdl.Proofs.Resolve.Targets

/-!
# The types of members

What a model says about the type of a member fits together (`ShapeIndex.TypesMember`): a member
is primitive exactly if its type is a scalar; a type that is the name of a shape is none of the
language, no simple shape and, but for the element of a list, no list of the document; and a
member is an array exactly if its target is a list of the document. So all that can be looked
through has been looked through once a name is left (`ShapeIndex.IsOpaque`).

Each function that finds a type has one lemma, which says what type it can be. The main theorem
is about every parameter and every property of every model (`resolve_typesMembers`).
-/

namespace ServiceIdl

open Reporting (bind_eq_ok_iff read_bind_eq_ok_iff)

/-- The parameters of all methods, and the properties of all types and unions. -/
def ServiceModel.members (model : ServiceModel) : List Member :=
  (model.interfaces.flatMap fun interface => interface.methods.flatMap Method.parameters) ++
    (model.types.flatMap StructureType.properties ++
      model.unions.flatMap StructureType.properties)

namespace ShapeIndex

variable {text : List Char} {index : ShapeIndex} {lines : LineIndex} {reports : List Report}

/-! ## What a type can be -/

/-- The id names a shape that is neither a type of the language nor a simple shape of the
document. -/
structure IsOpaque (index : ShapeIndex) (id : String) : Prop where
  keyword : Scalar.isKeyword id = false
  wrapper : Scalar.ofWrapper? id = none
  primitive : Scalar.isExpectedPrimitive id = false
  simple : index.find? .simple id = none

/-- The id means a list of the document. -/
structure MeansList (index : ShapeIndex) (id : String) : Prop where
  keyword : Scalar.isKeyword id = false
  wrapper : Scalar.ofWrapper? id = none
  list : ∃ list, index.find? .list id = some list

/-- What a model says about the type of a member of a shape. -/
structure TypesMember (index : ShapeIndex) (lines : LineIndex) (shape : AggregateShape)
    (member : ShapeMember) (m : Member) : Prop where
  named : ∃ decl name, ShapeMember.decl member = .ok decl ∧ MemberDecl.name decl = .ok name ∧
    m.name = name.text
  located : m.location = lines.locate member.span
  scalar : m.isPrimitive = true ↔ ∃ s, m.typeName = some (.scalar s)
  unknown : m.typeName = none → m.isPrimitive = false
  name : ∀ name, m.typeName = some (.shape name) →
    index.IsOpaque name ∧ (m.isArray = false → index.find? .list name = none)
  array : m.isArray = true ↔ ∃ id, index.HasTarget shape member id ∧ index.MeansList id

/-- An id refers to a list if it is no keyword and no wrapper, and a list has its name. -/
theorem listRef?_eq_some_iff {id : String} {list : ShapeRecord} :
    index.listRef? id = some list ↔
      Scalar.isKeyword id = false ∧ Scalar.ofWrapper? id = none ∧
        index.find? .list id = some list := by
  unfold listRef? isBuiltin
  cases Scalar.isKeyword id <;> cases Scalar.ofWrapper? id <;> simp

theorem meansList_iff {id : String} :
    index.MeansList id ↔ ∃ list, index.listRef? id = some list := by
  constructor
  · intro means
    obtain ⟨list, found⟩ := means.list
    exact ⟨list, listRef?_eq_some_iff.mpr ⟨means.keyword, means.wrapper, found⟩⟩
  · intro found
    obtain ⟨list, found⟩ := found
    obtain ⟨keyword, wrapper, found⟩ := listRef?_eq_some_iff.mp found
    exact ⟨keyword, wrapper, list, found⟩

/-! ## Types of ids -/

/-- An id is left as a name only if it is opaque. -/
theorem isOpaque_of_typeRef {id name : String} (ref : index.typeRef id = .named name) :
    name = id ∧ index.IsOpaque id := by
  unfold typeRef at ref
  split at ref
  · cases ref
  · rename_i keyword
    cases wrapper : Scalar.ofWrapper? id with
    | some scalar =>
      rw [wrapper] at ref
      cases ref
    | none =>
      cases simple : index.find? .simple id with
      | some shape =>
        rw [wrapper, simple] at ref
        cases ref
      | none =>
        rw [wrapper, simple] at ref
        simp only at ref
        split at ref
        · cases ref
        · rename_i primitive
          cases ref
          exact ⟨rfl, by simpa using keyword, wrapper, by simpa using primitive, simple⟩

/-- The type of a simple shape is a scalar. -/
theorem resolveAlias_spec {shape : ShapeRecord} (declared : shape.IsDeclaredIn text)
    (simple : shape.category = .simple) {type : ResolvedType}
    (success : index.resolveAlias shape = .ok (type, reports)) :
    ∃ s traits, type = .scalar s traits := by
  obtain ⟨decl, form, -⟩ := declared.exists_simple? simple
  unfold resolveAlias at success
  rw [form] at success
  obtain ⟨keyword, -, success⟩ := read_bind_eq_ok_iff.mp success
  obtain ⟨scalar, _, _, -, final, -⟩ := bind_eq_ok_iff.mp success
  cases final
  exact ⟨scalar, _, rfl⟩

/-- Lists apart, the type of an id is a scalar, or the id itself if it is opaque. -/
theorem resolveTypeRef_spec (holds : index.IsOf text) {id : String} {span : Span}
    {type : ResolvedType} (success : index.resolveTypeRef id span = .ok (type, reports)) :
    (∃ s traits, type = .scalar s traits) ∨ type = .named id ∧ index.IsOpaque id := by
  have spec := index.typeRef_spec id
  unfold resolveTypeRef at success
  cases ref : index.typeRef id with
  | keyword word =>
    rw [ref] at success
    obtain ⟨scalar, _, _, -, final, -⟩ := bind_eq_ok_iff.mp success
    cases final
    exact .inl ⟨scalar, _, rfl⟩
  | wrapper scalar =>
    rw [ref] at success
    cases success
    exact .inl ⟨scalar, _, rfl⟩
  | «alias» shape =>
    rw [ref] at success spec
    obtain ⟨declared, simple⟩ := holds.isDeclaredIn (mem_records_of_find? spec)
    exact .inl (resolveAlias_spec declared simple success)
  | expectedPrimitive =>
    rw [ref] at success
    cases success
    exact .inl ⟨.string, _, rfl⟩
  | named name =>
    rw [ref] at success
    cases success
    obtain ⟨rfl, isOpaque⟩ := isOpaque_of_typeRef ref
    exact .inr ⟨rfl, isOpaque⟩

/-! ## Types of lists and members -/

/-- The type is primitive exactly if it is called by a scalar, and if it is called by the name of
a shape, the name is opaque. -/
structure IsFitting (index : ShapeIndex) (type : ResolvedType) : Prop where
  scalar : type.isPrimitive = true ↔ ∃ s, type.typeName = some (.scalar s)
  names : ∀ name, type.typeName = some (.shape name) → index.IsOpaque name

/-- A type that is called nothing fits if it is not primitive. -/
theorem IsFitting.of_none {type : ResolvedType} (single : type.isPrimitive = false)
    (unknown : type.typeName = none) : index.IsFitting type := by
  constructor
  · simp [single, unknown]
  · intro name known
    cases unknown.symm.trans known

/-- Being an array and having traits is no matter. -/
theorem IsFitting.congr {type other : ResolvedType} (fits : index.IsFitting type)
    (flag : other.isPrimitive = type.isPrimitive) (name : other.typeName = type.typeName) :
    index.IsFitting other := by
  constructor
  · rw [flag, name]
    exact fits.scalar
  · rw [name]
    exact fits.names

/-- A type that fits and is called nothing is not primitive. -/
theorem IsFitting.isPrimitive_eq_false {type : ResolvedType} (fits : index.IsFitting type)
    (unknown : type.typeName = none) : type.isPrimitive = false := by
  refine Bool.eq_false_iff.mpr fun primitive => ?_
  obtain ⟨s, known⟩ := fits.scalar.mp primitive
  cases unknown.symm.trans known

theorem isFitting_of_resolveTypeRef (holds : index.IsOf text) {id : String} {span : Span}
    {type : ResolvedType} (success : index.resolveTypeRef id span = .ok (type, reports)) :
    index.IsFitting type := by
  rcases resolveTypeRef_spec holds success with ⟨s, traits, rfl⟩ | ⟨rfl, isOpaque⟩
  · constructor
    · simp [ResolvedType.scalar]
    · intro name known
      cases known
  · constructor
    · simp [ResolvedType.named]
    · intro name known
      cases known
      exact isOpaque

theorem isFitting_of_resolveElement (holds : index.IsOf text) {shape : AggregateShape}
    {element : ShapeMember} {type : ResolvedType}
    (success : index.resolveElement shape element = .ok (type, reports)) :
    index.IsFitting type := by
  obtain ⟨decl, -, success⟩ := read_bind_eq_ok_iff.mp success
  obtain ⟨statements, -, success⟩ := read_bind_eq_ok_iff.mp success
  obtain ⟨own, -, success⟩ := read_bind_eq_ok_iff.mp success
  obtain ⟨found, -, success⟩ := read_bind_eq_ok_iff.mp success
  cases found with
  | none =>
    obtain ⟨name, -, success⟩ := read_bind_eq_ok_iff.mp success
    obtain ⟨_, _, _, -, final, -⟩ := bind_eq_ok_iff.mp success
    cases final
    exact .of_none rfl rfl
  | some target =>
    obtain ⟨resolved, _, _, typed, final, -⟩ := bind_eq_ok_iff.mp success
    cases final
    exact (isFitting_of_resolveTypeRef holds typed).congr rfl rfl

/-- The type of a list is an array, whether its elements have a type or not. -/
theorem resolveList_spec (holds : index.IsOf text) {list : ShapeRecord} {type : ResolvedType}
    (success : index.resolveList list = .ok (type, reports)) :
    type.isArray = true ∧ index.IsFitting type := by
  unfold resolveList at success
  cases form : list.aggregate? with
  | none =>
    rw [form] at success
    cases success
    exact ⟨rfl, .of_none rfl rfl⟩
  | some shape =>
    rw [form] at success
    obtain ⟨part, -, success⟩ := read_bind_eq_ok_iff.mp success
    cases written : ShapeMembers.members part with
    | nil =>
      rw [written] at success
      obtain ⟨_, _, _, -, final, -⟩ := bind_eq_ok_iff.mp success
      cases final
      exact ⟨rfl, .of_none rfl rfl⟩
    | cons element others =>
      rw [written] at success
      obtain ⟨resolved, _, _, typed, final, -⟩ := bind_eq_ok_iff.mp success
      cases final
      exact ⟨rfl, (isFitting_of_resolveElement holds typed).congr rfl rfl⟩

/-- The type of a target fits, and is an array exactly if the target means a list. If the target
is left as a name, it does not. -/
theorem resolveTarget_spec (holds : index.IsOf text) {id : String} {span : Span}
    {type : ResolvedType} (success : index.resolveTarget id span = .ok (type, reports)) :
    index.IsFitting type ∧ (type.isArray = true ↔ index.MeansList id) ∧
      ∀ name, type.typeName = some (.shape name) → type.isArray = false →
        index.find? .list name = none := by
  unfold resolveTarget at success
  rw [meansList_iff]
  cases found : index.listRef? id with
  | some list =>
    rw [found] at success
    obtain ⟨isArray, fits⟩ := resolveList_spec holds success
    refine ⟨fits, by simp [isArray], ?_⟩
    rw [isArray]
    intro name known single
    cases single
  | none =>
    rw [found] at success
    have fits := isFitting_of_resolveTypeRef holds success
    rcases resolveTypeRef_spec holds success with ⟨s, traits, rfl⟩ | ⟨rfl, isOpaque⟩
    · refine ⟨fits, by simp [ResolvedType.scalar], ?_⟩
      intro name known
      cases known
    · refine ⟨fits, by simp [ResolvedType.named], ?_⟩
      intro name known single
      cases known
      refine Option.eq_none_iff_forall_ne_some.mpr fun list listed => ?_
      have means := listRef?_eq_some_iff.mpr ⟨isOpaque.keyword, isOpaque.wrapper, listed⟩
      cases found.symm.trans means

theorem typesMember_of_resolveMember (holds : index.IsOf text) {shape : AggregateShape}
    {member : ShapeMember} (part : member.tree.IsPart text) {m : Member}
    (success : index.resolveMember lines (AggregateShape.mixins shape) member =
      .ok (m, reports)) : index.TypesMember lines shape member m := by
  obtain ⟨decl, identifier, _, _, type, _, readDecl, readName, -, -, typed, rfl, -⟩ :=
    resolveMember_spec success
  have partDecl := View.isPart_of_required part readDecl
  have shaped : index.IsFitting type ∧
      (type.isArray = true ↔ ∃ id, index.HasTarget shape member id ∧ index.MeansList id) ∧
      ∀ name, type.typeName = some (.shape name) → type.isArray = false →
        index.find? .list name = none := by
    rcases resolveMemberType_spec typed with ⟨read, rfl, -⟩ | ⟨target, inner, read, given, rfl⟩
    · refine ⟨.of_none rfl rfl, ?_, fun name known => nomatch known⟩
      simp [hasTarget_iff partDecl readDecl read, ResolvedType.unknown]
    · obtain ⟨fits, array, unlisted⟩ := resolveTarget_spec holds given
      refine ⟨fits.congr rfl rfl, ?_, unlisted⟩
      simpa [hasTarget_iff partDecl readDecl read, ResolvedType.withTraits] using array
  obtain ⟨fits, array, unlisted⟩ := shaped
  exact ⟨⟨decl, identifier, readDecl, readName, rfl⟩, rfl, fits.scalar,
    fits.isPrimitive_eq_false, fun name known => ⟨fits.names name known, unlisted name known⟩,
    array⟩

/-! ## Models -/

/-- The index types the member as one of a structure of the document. -/
def Types (index : ShapeIndex) (lines : LineIndex) (m : Member) : Prop :=
  ∃ record shape members member,
    record ∈ index.records .structureShape ∧ record.aggregate? = some shape ∧
    AggregateShape.HasMembers shape members ∧ member ∈ members ∧
    index.TypesMember lines shape member m

theorem types_of_resolveMembers (holds : index.IsOf text) {record : ShapeRecord}
    (filed : record ∈ index.records .structureShape) {ms : List Member}
    (success : index.resolveMembers lines record = .ok (ms, reports)) :
    ∀ m ∈ ms, index.Types lines m := by
  obtain ⟨declared, category⟩ := holds.isDeclaredIn filed
  obtain ⟨shape, form, part⟩ := declared.exists_aggregate? (.inr category)
  unfold resolveMembers at success
  rw [form] at success
  obtain ⟨members, read, success⟩ := read_bind_eq_ok_iff.mp success
  have partMembers := View.isPart_of_required part read
  intro m inside
  obtain ⟨member, present, _, resolved⟩ := (Reporting.mapM_eq_ok success).2.1 m inside
  exact ⟨record, shape, _, member, filed, form, ⟨members, read, rfl⟩, present,
    typesMember_of_resolveMember holds (View.isPart_of_mem_many partMembers present) resolved⟩

theorem types_of_resolveModel (holds : index.IsOf text) {path : String} {options : Options}
    {model : ServiceModel}
    (success : index.resolveModel lines path options = .ok (model, reports)) :
    ∀ m ∈ model.members, index.Types lines m := by
  obtain ⟨_, _, _, _, _, _, -, typed, -, -, -, unions, -⟩ := resolveModel_spec success
  intro m inside
  rcases List.mem_append.mp inside with parameter | property
  · obtain ⟨interface, listed, inside⟩ := List.mem_flatMap.mp parameter
    obtain ⟨method, present, inside⟩ := List.mem_flatMap.mp inside
    obtain ⟨operation, -, -, parameters, -⟩ := exists_operation success listed present
    rcases parameters with ⟨id, record, _, -, found, members⟩ | ⟨-, nothing⟩
    · exact types_of_resolveMembers holds (mem_records_of_find? found) members m inside
    · rw [nothing] at inside
      cases inside
  · rw [unions, List.flatMap_nil, List.append_nil] at property
    obtain ⟨type, listed, inside⟩ := List.mem_flatMap.mp property
    obtain ⟨record, filed, _, resolved⟩ := (Reporting.mapM_eq_ok typed).2.1 type listed
    obtain ⟨-, -, -, members⟩ := resolveStructure_spec resolved
    exact types_of_resolveMembers holds filed members m inside

end ShapeIndex

/-- What the model of a text says about the types of its parameters and properties fits
together, and fits the document. -/
theorem resolve_typesMembers (text path : String) (options : Options) :
    ∃ resolution, resolve text path options = .ok resolution ∧
      ∀ m ∈ resolution.model.members, ∃ tree idl index,
        documentTree text = .ok (.ok tree) ∧ Idl.ofTree tree = .ok idl ∧
        ShapeIndex.ofIdl idl = .ok index ∧ index.Types (.ofText text) m := by
  cases accepted : documentEvents text with
  | error rejection =>
    refine ⟨_, resolve_of_rejected accepted path options, ?_⟩
    intro m inside
    cases inside
  | ok events =>
    obtain ⟨tree, idl, index, model, reports, made, -, root, indexed, holds, modelled, resolved⟩ :=
      exists_model_of_accepted accepted path options
    refine ⟨_, resolved, fun m inside => ⟨tree, idl, index, made, root, indexed, ?_⟩⟩
    exact ShapeIndex.types_of_resolveModel holds modelled m inside

/-- A list of lists is an array of a shape, whose name is left although it is that of a list. -/
example : ((resolve
    ("namespace a\nlist L \x7b m: N \x7d\nlist N \x7b m: String \x7d\n" ++
      "structure S \x7b l: L n: a#N \x7d")
      "a" {}).toOption.map fun resolution =>
    resolution.model.members.map fun m => (m.isArray, m.isPrimitive, m.typeName)) =
      some [(true, false, some (.shape "N")), (true, true, some (.scalar .string))] := by
  decide +kernel

end ServiceIdl
