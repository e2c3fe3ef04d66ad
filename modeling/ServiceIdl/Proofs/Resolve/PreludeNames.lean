import ServiceIdl.Proofs.Model.Log
import ServiceIdl.Proofs.Resolve.Apart
import ServiceIdl.Proofs.Resolve.Members
import ServiceIdl.Proofs.Resolve.Spelling

/-!
# Names that a document shares with the prelude

A name that the document declares as a shape, and neither as a list nor as a simple shape, is
left to stand for the shape wherever members refer to it (`ShapeIndex.DenotesShape`). The
exceptions are the names of the prelude that have no type in the tables of the language: they
only ever mean the prelude's, whatever the document declares, count as strings, and are reported
where the reference is (`ShapeIndex.DenotesPrelude`).
-/

namespace ServiceIdl

open Reporting (bind_eq_ok_iff read_bind_eq_ok_iff)

/-- The message tells the id. -/
theorem Finding.eq_of_message_unknownPrimitive {id other : String}
    (same : (Finding.unknownPrimitive id).message = (Finding.unknownPrimitive other).message) :
    id = other := by
  have lists := congrArg String.toList same
  unfold Finding.message at lists
  rw [String.toList_append, String.toList_append, String.toList_append,
    String.toList_append] at lists
  exact String.toList_inj.mp (List.append_cancel_left (List.append_cancel_right lists))

/-- Without a namespace, only the listed names are expected of the prelude. -/
theorem Scalar.isExpectedPrimitive_of_not_mem {name : String} (bare : '#' ∉ name.toList) :
    isExpectedPrimitive name = true ↔ name ∈ preludeBuiltins := by
  rw [isExpectedPrimitive, withoutPrelude?_of_not_mem bare, Option.isSome_none, Bool.false_or,
    List.contains_iff_mem]

namespace ShapeIndex

variable {text : List Char} {root : Tree} {index : ShapeIndex} {lines : LineIndex}
  {shape : AggregateShape} {member reference : ShapeMember} {name id : String} {m : Member}
  {reports : List Report}

/-! ## What is asked of a name -/

/-- The name has no type in the tables of the language, and the document declares neither a list
nor a simple shape with it. -/
structure IsUnshared (index : ShapeIndex) (name : String) : Prop where
  keyword : Scalar.isKeyword name = false
  wrapper : Scalar.ofWrapper? name = none
  list : ∀ list ∈ index.records .list, list.name ≠ name
  simple : ∀ simple ∈ index.records .simple, simple.name ≠ name

instance (index : ShapeIndex) (name : String) : Decidable (index.IsUnshared name) :=
  decidable_of_iff
    (Scalar.isKeyword name = false ∧ Scalar.ofWrapper? name = none ∧
      (∀ list ∈ index.records .list, list.name ≠ name) ∧
      ∀ simple ∈ index.records .simple, simple.name ≠ name)
    ⟨fun ⟨keyword, wrapper, list, simple⟩ => ⟨keyword, wrapper, list, simple⟩,
      fun unshared => ⟨unshared.keyword, unshared.wrapper, unshared.list, unshared.simple⟩⟩

/-- The member refers to the id: by its own target, taken over or not, or by that of the first
member of the list that its target means. -/
inductive Refers (index : ShapeIndex) (id : String) (shape : AggregateShape)
    (member : ShapeMember) : ShapeMember → Prop
  | itself : index.HasTarget shape member id → Refers index id shape member member
  | element {listId : String} {list : ShapeRecord} {listShape : AggregateShape}
      {element : ShapeMember} {others : List ShapeMember} :
    index.HasTarget shape member listId → index.listRef? listId = some list →
    list.aggregate? = some listShape → AggregateShape.HasMembers listShape (element :: others) →
    index.HasTarget listShape element id → Refers index id shape member element

/-- Wherever members refer to the name, it is the name of a shape, and nothing is reported. -/
structure DenotesShape (index : ShapeIndex) (lines : LineIndex) (name : String)
    (resolution : Resolution) : Prop where
  members : index.EachMember
    (fun shape member m => ∀ reference, index.Refers name shape member reference →
      m.typeName = some (.shape name) ∧ m.isPrimitive = false ∧
      resolution.diagnostics.filter (fun d =>
        d.code = .unknownPrimitive ∧ d.location = lines.locate reference.span) = [])
    resolution.model
  unnamed : ∀ d ∈ resolution.diagnostics, d.code = .unknownPrimitive →
    d.message ≠ (Finding.unknownPrimitive name).message

/-- Wherever members refer to the name, it counts as a string, and is reported once where the
reference is. -/
structure DenotesPrelude (index : ShapeIndex) (path : String) (lines : LineIndex) (name : String)
    (resolution : Resolution) : Prop where
  members : index.EachMember
    (fun shape member m => ∀ reference, index.Refers name shape member reference →
      m.typeName = some (.scalar .string) ∧ m.isPrimitive = true ∧
      resolution.diagnostics.filter (fun d =>
          d.code = .unknownPrimitive ∧ d.location = lines.locate reference.span) =
        [.ofReport path lines ⟨.unknownPrimitive name, reference.span⟩])
    resolution.model

/-! ## Types of references -/

theorem IsUnshared.find?_eq_none (unshared : index.IsUnshared name) (holds : index.IsOf text)
    (bare : '#' ∉ name.toList) :
    index.find? .list name = none ∧ index.find? .simple name = none := by
  constructor
  · refine Option.eq_none_iff_forall_ne_some.mpr fun list found => ?_
    exact unshared.list list (mem_records_of_find? found) (holds.name_of_find? bare found)
  · refine Option.eq_none_iff_forall_ne_some.mpr fun simple found => ?_
    exact unshared.simple simple (mem_records_of_find? found) (holds.name_of_find? bare found)

theorem IsUnshared.listRef?_eq_none (unshared : index.IsUnshared name) (holds : index.IsOf text)
    (bare : '#' ∉ name.toList) : index.listRef? name = none := by
  unfold listRef?
  rw [(unshared.find?_eq_none holds bare).1, ite_self]

/-- A name that is none of the prelude's is left as it is. -/
theorem IsUnshared.resolveTypeRef_of_not_mem (unshared : index.IsUnshared name)
    (holds : index.IsOf text) (bare : '#' ∉ name.toList) (free : name ∉ Scalar.preludeBuiltins)
    (span : Span) : index.resolveTypeRef name span = .ok (.named name, []) := by
  have unexpected : ¬ Scalar.isExpectedPrimitive name = true :=
    fun expected => free ((Scalar.isExpectedPrimitive_of_not_mem bare).mp expected)
  have ref : index.typeRef name = .named name := by
    simp [typeRef, unshared.keyword, unshared.wrapper, (unshared.find?_eq_none holds bare).2,
      unexpected]
  unfold resolveTypeRef
  rw [ref]
  rfl

/-- A name of the prelude's counts as a string, and is reported. -/
theorem IsUnshared.resolveTypeRef_of_mem (unshared : index.IsUnshared name)
    (holds : index.IsOf text) (bare : '#' ∉ name.toList) (listed : name ∈ Scalar.preludeBuiltins)
    (span : Span) : index.resolveTypeRef name span =
      .ok (.scalar .string [], [⟨.unknownPrimitive name, span⟩]) := by
  have expected := (Scalar.isExpectedPrimitive_of_not_mem bare).mpr listed
  have ref : index.typeRef name = .expectedPrimitive name := by
    simp [typeRef, unshared.keyword, unshared.wrapper, (unshared.find?_eq_none holds bare).2,
      expected]
  unfold resolveTypeRef
  rw [ref]
  rfl

/-! ## Types of members -/

/-- The computation gives a type with this flag and this name, and its reports are among these. -/
def ComesFrom (isPrimitive : Bool) (typeName : Option TypeName) (reports : List Report)
    (computation : Reporting ResolvedType) : Prop :=
  ∃ type own, computation = .ok (type, own) ∧ isPrimitive = type.isPrimitive ∧
    typeName = type.typeName ∧ ∀ report ∈ own, report ∈ reports

/-- If a step hands on what it gets, the type comes from where that came from. -/
theorem ComesFrom.through {isPrimitive : Bool} {typeName : Option TypeName}
    {first second : Reporting ResolvedType}
    (comes : ComesFrom isPrimitive typeName reports first)
    (next : ∀ type own, first = .ok (type, own) →
      ComesFrom type.isPrimitive type.typeName own second) :
    ComesFrom isPrimitive typeName reports second := by
  obtain ⟨type, own, success, rfl, rfl, inside⟩ := comes
  obtain ⟨inner, own', success', flag, same, inside'⟩ := next type own success
  exact ⟨inner, own', success', flag, same,
    fun report reported => inside _ (inside' report reported)⟩

/-- The type of a member is that of its target. -/
theorem comesFrom_of_hasTarget (part : member.tree.IsPart text)
    (success : index.resolveMember lines (AggregateShape.mixins shape) member = .ok (m, reports))
    (target : index.HasTarget shape member id) :
    ComesFrom m.isPrimitive m.typeName reports (index.resolveTarget id member.span) := by
  obtain ⟨decl, _, _, _, _, fromType, readDecl, -, -, -, typed, rfl, rfl⟩ :=
    resolveMember_spec success
  have part := View.isPart_of_required part readDecl
  rcases resolveMemberType_spec typed with ⟨read, -⟩ | ⟨taken, inner, read, given, rfl⟩
  · cases (hasTarget_iff part readDecl read id).mp target
  · obtain rfl := Option.some.inj ((hasTarget_iff part readDecl read id).mp target)
    exact ⟨inner, fromType, given, rfl, rfl,
      fun report reported => List.mem_append_left _ reported⟩

/-- The type of a list's element is that of its target. -/
theorem comesFrom_of_resolveElement {element : ShapeMember} (part : element.tree.IsPart text)
    {type : ResolvedType} (success : index.resolveElement shape element = .ok (type, reports))
    (target : index.HasTarget shape element id) :
    ComesFrom type.isPrimitive type.typeName reports (index.resolveTypeRef id element.span) := by
  obtain ⟨decl, readDecl, success⟩ := read_bind_eq_ok_iff.mp success
  obtain ⟨statements, -, success⟩ := read_bind_eq_ok_iff.mp success
  obtain ⟨own, -, success⟩ := read_bind_eq_ok_iff.mp success
  obtain ⟨found, read, success⟩ := read_bind_eq_ok_iff.mp success
  have taken := (hasTarget_iff (View.isPart_of_required part readDecl) readDecl read id).mp target
  obtain ⟨target, rfl, rfl⟩ := Option.map_eq_some_iff.mp taken
  obtain ⟨resolved, first, _, typed, final, rfl⟩ := bind_eq_ok_iff.mp success
  cases final
  exact ⟨resolved, first, typed, rfl, rfl,
    fun report reported => List.mem_append_left _ reported⟩

/-- The type of a list is that of its first member. -/
theorem comesFrom_of_resolveList {list : ShapeRecord} {type : ResolvedType}
    (success : index.resolveList list = .ok (type, reports)) (form : list.aggregate? = some shape)
    {element : ShapeMember} {others : List ShapeMember}
    (members : AggregateShape.HasMembers shape (element :: others)) :
    ComesFrom type.isPrimitive type.typeName reports (index.resolveElement shape element) := by
  obtain ⟨part, readMembers, written⟩ := members
  unfold resolveList at success
  simp only [form] at success
  obtain ⟨_, readMembers', success⟩ := read_bind_eq_ok_iff.mp success
  cases readMembers.symm.trans readMembers'
  rw [written] at success
  obtain ⟨inner, first, _, typed, final, rfl⟩ := bind_eq_ok_iff.mp success
  cases final
  exact ⟨inner, first, typed, rfl, rfl,
    fun report reported => List.mem_append_left _ reported⟩

/-- Who refers to an id has a member with that target, itself or in a list. -/
theorem Refers.exists_hasMember (refers : index.Refers id shape member reference)
    (has : index.HasMember .structureShape shape member) :
    ∃ category shape', index.HasMember category shape' reference ∧
      index.HasTarget shape' reference id := by
  cases refers with
  | itself target => exact ⟨_, shape, has, target⟩
  | @element _ list listShape element others _ found form members target =>
    have inList := mem_records_of_find? (find?_of_listRef? found)
    exact ⟨.list, listShape, ⟨list, inList, _, form, members, List.mem_cons_self⟩, target⟩

/-- The type of a member that refers to an id which means no list is that of the id. -/
theorem comesFrom_of_refers (holds : index.IsOf text)
    (has : index.HasMember .structureShape shape member)
    (success : index.resolveMember lines (AggregateShape.mixins shape) member = .ok (m, reports))
    (noList : index.listRef? id = none) (refers : index.Refers id shape member reference) :
    ComesFrom m.isPrimitive m.typeName reports (index.resolveTypeRef id reference.span) := by
  cases refers with
  | itself target =>
    have comes := comesFrom_of_hasTarget (has.isPart holds) success target
    unfold resolveTarget at comes
    rwa [noList] at comes
  | @element _ list listShape _ others target found form members target' =>
    have comes := comesFrom_of_hasTarget (has.isPart holds) success target
    unfold resolveTarget at comes
    rw [found] at comes
    have inList : index.HasMember .list listShape reference :=
      ⟨list, mem_records_of_find? (find?_of_listRef? found), _, form, members, List.mem_cons_self⟩
    refine comes.through fun type own typed => ?_
    refine (comesFrom_of_resolveList typed form members).through fun inner own' typed' => ?_
    exact comesFrom_of_resolveElement (inList.isPart holds) typed' target'

/-- What is found of the prelude's names where a reference is, is found of its id. -/
theorem Finds.eq_of_hasTarget (document : root.IsDocument text) (holds : index.IsOf text)
    (origin : index.IsFrom root) {category : ShapeCategory}
    (has : index.HasMember category shape reference) (target : index.HasTarget shape reference id)
    {report : Report} (found : index.Finds root report)
    (code : report.finding.code = .unknownPrimitive) (same : report.span = reference.span) :
    Scalar.isExpectedPrimitive id = true ∧ report = ⟨.unknownPrimitive id, reference.span⟩ := by
  cases found with
  | @unknownPrimitive _ shape' member decl taken has' readDecl read expected =>
    -- The place tells the member, the member its shape, and both what it refers to.
    obtain rfl := ShapeMember.eq_of_span_eq document (has'.occurs origin) (has.occurs origin) same
    obtain rfl := has.shape_eq document holds origin has'
    have part := View.isPart_of_required (has.isPart holds) readDecl
    obtain rfl := Option.some.inj ((hasTarget_iff part readDecl read id).mp target)
    exact ⟨expected, rfl⟩
  | _ => cases code

/-! ## Models -/

section Models

variable (document : root.IsDocument text) (holds : index.IsOf text) (origin : index.IsFrom root)
  {path : String} {options : Options} {model : ServiceModel}
  (success : index.resolveModel lines path options = .ok (model, reports))
  (found : ∀ report ∈ reports, index.Finds root report)
  (unshared : index.IsUnshared name) (bare : '#' ∉ name.toList)

include document holds origin success found unshared bare

/-- A name that is not in the prelude denotes its shape wherever a member refers to it. -/
theorem denotesShape_of_resolveModel (free : name ∉ Scalar.preludeBuiltins) :
    index.DenotesShape lines name
      ⟨model, (Log.empty.insertReports path lines reports).entries⟩ := by
  have unexpected : ¬ Scalar.isExpectedPrimitive name = true :=
    fun expected => free ((Scalar.isExpectedPrimitive_of_not_mem bare).mp expected)
  constructor
  · refine eachMember_of_resolveModel holds ?_ success
    intro shape member m own has made inside reference refers
    obtain ⟨type, _, typed, flag, known, -⟩ :=
      comesFrom_of_refers holds has made (unshared.listRef?_eq_none holds bare) refers
    rw [unshared.resolveTypeRef_of_not_mem holds bare free] at typed
    cases typed
    refine ⟨known, flag, Log.filter_entries_eq_nil fun report reported => decide_eq_false ?_⟩
    rintro ⟨code, location⟩
    obtain ⟨_, _, inShape, target⟩ := refers.exists_hasMember has
    exact unexpected (Finds.eq_of_hasTarget document holds origin inShape target
      (found report reported) code (LineIndex.span_eq_of_locate_eq location)).1
  · intro d kept code message
    obtain ⟨report, reported, rfl⟩ := Log.mem_entries_insertReports_empty.mp kept
    cases found report reported with
    | unknownPrimitive _ _ _ expected =>
      rw [Finding.eq_of_message_unknownPrimitive message] at expected
      exact unexpected expected
    | _ => cases code

/-- A builtin name of the prelude denotes a string instead, and is reported where it is referred
to. -/
theorem denotesPrelude_of_resolveModel (listed : name ∈ Scalar.preludeBuiltins) :
    index.DenotesPrelude path lines name
      ⟨model, (Log.empty.insertReports path lines reports).entries⟩ := by
  refine ⟨eachMember_of_resolveModel holds ?_ success⟩
  intro shape member m own has made inside reference refers
  obtain ⟨type, _, typed, flag, known, noted⟩ :=
    comesFrom_of_refers holds has made (unshared.listRef?_eq_none holds bare) refers
  rw [unshared.resolveTypeRef_of_mem holds bare listed] at typed
  cases typed
  refine ⟨known, flag, Log.filter_entries_eq_singleton
    (inside _ (noted _ (List.mem_singleton_self _))) (decide_eq_true ⟨rfl, rfl⟩) ?_⟩
  intro report reported here
  obtain ⟨code, location⟩ := of_decide_eq_true here
  obtain ⟨_, _, inShape, target⟩ := refers.exists_hasMember has
  exact (Finds.eq_of_hasTarget document holds origin inShape target (found report reported) code
    (LineIndex.span_eq_of_locate_eq location)).2

end Models

end ShapeIndex

/-! ## Documents -/

/-- A shape of a document, of which neither a list nor a simple shape shares the name, is what its
name denotes, unless the name is one that only the prelude could have. -/
theorem resolve_sharedNames {text : String} {events : List Event}
    (accepted : documentEvents text = .ok events) (path : String) (options : Options) :
    ∃ tree idl index resolution,
      documentTree text = .ok (.ok tree) ∧ Idl.ofTree tree = .ok idl ∧
      ShapeIndex.ofIdl idl = .ok index ∧ resolve text path options = .ok resolution ∧
      ∀ category, ∀ record ∈ index.records category, index.IsUnshared record.name →
        (record.name ∉ Scalar.preludeBuiltins →
          index.DenotesShape (.ofText text) record.name resolution) ∧
        (record.name ∈ Scalar.preludeBuiltins →
          index.DenotesPrelude path (.ofText text) record.name resolution) := by
  obtain ⟨tree, idl, index, model, reports, made, root, indexed, document, holds, origin, modelled,
    found, resolved⟩ := exists_findings_of_accepted accepted path options
  refine ⟨tree, idl, index, _, made, root, indexed, resolved, ?_⟩
  intro category record member unshared
  have bare := holds.numberSign_not_mem member
  exact ⟨ShapeIndex.denotesShape_of_resolveModel document holds origin modelled found unshared bare,
    ShapeIndex.denotesPrelude_of_resolveModel document holds origin modelled found unshared bare⟩

/-- A structure with a name of the prelude, and an enumeration with none, which a member, a list
and a mixin refer to. -/
def sharedNames : String :=
  "namespace a\nstructure Unit \x7b z: E \x7d\nenum E \x7b X \x7d\nlist L \x7b member: E \x7d\n" ++
    "structure S with [Unit] \x7b u: Unit l: L $z \x7d"

/-- The structure `Unit` is taken for the prelude's, with one report, while the enum `E` denotes
itself through a list and a mixin. -/
theorem resolve_sharedNames_unit :
    ∃ events, documentEvents sharedNames = .ok events ∧
      ∃ tree idl index resolution,
        documentTree sharedNames = .ok (.ok tree) ∧ Idl.ofTree tree = .ok idl ∧
        ShapeIndex.ofIdl idl = .ok index ∧ resolve sharedNames "a" {} = .ok resolution ∧
        (∃ record ∈ index.records .enum, record.name = "E" ∧
          index.DenotesShape (.ofText sharedNames) record.name resolution) ∧
        (∃ record ∈ index.records .structureShape, record.name = "Unit" ∧
          index.DenotesPrelude "a" (.ofText sharedNames) record.name resolution) ∧
        resolution.model.types.map (fun type =>
            (type.name, type.properties.map fun m => (m.name, m.typeName))) =
          [("Unit", [("z", some (.shape "E"))]),
            ("S", [("u", some (.scalar .string)), ("l", some (.shape "E")),
              ("z", some (.shape "E"))])] ∧
        resolution.diagnostics.map Diagnostic.code = [.unknownPrimitive] := by
  have computed : (resolve sharedNames "a" {}).toOption.any (fun resolution =>
      resolution.model.types.map (fun type =>
          (type.name, type.properties.map fun m => (m.name, m.typeName))) ==
        [("Unit", [("z", some (.shape "E"))]),
          ("S", [("u", some (.scalar .string)), ("l", some (.shape "E")),
            ("z", some (.shape "E"))])] &&
      resolution.diagnostics.map Diagnostic.code == [.unknownPrimitive]) = true := by
    decide +kernel
  have declared : (indexed? sharedNames).any (fun (_, index) =>
      (index.records .enum).any (fun record =>
        decide (record.name = "E" ∧ index.IsUnshared record.name)) &&
      (index.records .structureShape).any fun record =>
        decide (record.name = "Unit" ∧ index.IsUnshared record.name)) = true := by
    decide +kernel
  obtain ⟨known, success, computed⟩ := (Option.any_eq_true _ _).mp computed
  obtain ⟨properties, reports⟩ := Bool.and_eq_true_iff.mp computed
  obtain ⟨⟨idl, index⟩, found, declared⟩ := (Option.any_eq_true _ _).mp declared
  obtain ⟨enums, structures⟩ := Bool.and_eq_true_iff.mp declared
  obtain ⟨events, tree, accepted, made, root, indexed, -⟩ := exists_events_of_indexed? found
  obtain ⟨tree', idl', index', resolution, made', root', indexed', resolved, denotes⟩ :=
    resolve_sharedNames accepted "a" {}
  cases made.symm.trans made'
  cases root.symm.trans root'
  cases indexed.symm.trans indexed'
  cases (Outcome.eq_ok_of_toOption success).symm.trans resolved
  obtain ⟨enum, isIn, own⟩ := List.any_eq_true.mp enums
  obtain ⟨named, unshared⟩ := of_decide_eq_true own
  obtain ⟨structure', isIn', own'⟩ := List.any_eq_true.mp structures
  obtain ⟨named', unshared'⟩ := of_decide_eq_true own'
  refine ⟨events, accepted, tree, idl, index, known, made, root, indexed, resolved,
    ⟨enum, isIn, named, (denotes _ enum isIn unshared).1 ?_⟩,
    ⟨structure', isIn', named', (denotes _ structure' isIn' unshared').2 ?_⟩,
    eq_of_beq properties, eq_of_beq reports⟩
  · rw [named]
    decide
  · rw [named']
    decide

/-- A structure that has a name of the prelude, and a member that refers to it. -/
def ownUnit : String := "namespace a\nstructure Unit \x7b\x7d\nstructure S \x7b u: Unit \x7d"

/-- The member has the prelude's type, and that is reported. -/
theorem resolve_ownUnit :
    ∃ tree idl index resolution,
      documentTree ownUnit = .ok (.ok tree) ∧ Idl.ofTree tree = .ok idl ∧
      ShapeIndex.ofIdl idl = .ok index ∧ resolve ownUnit "a" {} = .ok resolution ∧
      (∃ record ∈ index.records .structureShape, record.name = "Unit" ∧
        index.IsUnshared record.name ∧
        ¬ index.DenotesShape (.ofText ownUnit) record.name resolution) ∧
      resolution.model.types.map (fun type =>
          (type.name, type.properties.map fun m => (m.name, m.typeName, m.isPrimitive))) =
        [("Unit", []), ("S", [("u", some (.scalar .string), true)])] := by
  have computed : (resolve ownUnit "a" {}).toOption.any (fun resolution =>
      resolution.model.types.map (fun type =>
          (type.name, type.properties.map fun m => (m.name, m.typeName, m.isPrimitive))) ==
        [("Unit", []), ("S", [("u", some (.scalar .string), true)])] &&
      resolution.diagnostics.any fun d =>
        d.code == .unknownPrimitive && d.message == (Finding.unknownPrimitive "Unit").message) =
      true := by
    decide +kernel
  have declared : (indexed? ownUnit).any (fun (_, index) =>
      (index.records .structureShape).any fun record =>
        decide (record.name = "Unit" ∧ index.IsUnshared record.name)) = true := by
    decide +kernel
  obtain ⟨resolution, success, computed⟩ := (Option.any_eq_true _ _).mp computed
  obtain ⟨types, reported⟩ := Bool.and_eq_true_iff.mp computed
  obtain ⟨⟨idl, index⟩, found, declared⟩ := (Option.any_eq_true _ _).mp declared
  obtain ⟨record, member, own⟩ := List.any_eq_true.mp declared
  obtain ⟨named, unshared⟩ := of_decide_eq_true own
  obtain ⟨events, tree, accepted, made, root, indexed, -⟩ := exists_events_of_indexed? found
  refine ⟨tree, idl, index, resolution, made, root, indexed, Outcome.eq_ok_of_toOption success,
    ⟨record, member, named, unshared, fun denotes => ?_⟩, eq_of_beq types⟩
  obtain ⟨d, present, both⟩ := List.any_eq_true.mp reported
  obtain ⟨code, message⟩ := Bool.and_eq_true_iff.mp both
  rw [named] at denotes
  exact denotes.unnamed d present (eq_of_beq code) (eq_of_beq message)

end ServiceIdl
