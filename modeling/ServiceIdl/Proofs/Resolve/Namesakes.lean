import ServiceIdl.Proofs.Resolve.Sources
import ServiceIdl.Proofs.Resolve.Steps
import ServiceIdl.Proofs.Shape.Last

/-!
# Shapes that share their name

An index has one list of traits for each name. The list of a shape is the one in front of the
statement that declares the shape, unless a later statement declares its name in another
category, which then gives its own (`resolve_traits_of_lastDeclaration`). Whatever a model has
of the traits of a shape comes from this list (`ShapeIndex.UsesTraits`).
-/

namespace ServiceIdl

variable {statements : List ShapeStatement} {index : ShapeIndex}

/-! ## Where the traits of a name come from -/

/-- The traits of the name of a shape, whose own are `own` and behind whose statement come the
statements `later`. -/
inductive ShapeRecord.NameTraits (record : ShapeRecord) (own : List Trait)
    (later : List ShapeStatement) : List Trait → Prop
  | own : (∀ other ∈ later, ∀ traits, ¬ ShapeStatement.Declares record.name other traits) →
    NameTraits record own later own
  /-- The last statement with the name declares a shape of another category. -/
  | namesake {between rest : List ShapeStatement} {other : ShapeStatement}
    {namesake : ShapeRecord} {traits : List Trait} :
    later = between ++ other :: rest → ShapeStatement.DeclaresShape other namesake traits →
    namesake.name = record.name → namesake.category ≠ record.category →
    (∀ statement ∈ rest, ∀ traits, ¬ ShapeStatement.Declares record.name statement traits) →
    NameTraits record own later traits

namespace ShapeIndex

/-- The last traits of a name are those of a shape or of a later namesake of it. -/
theorem nameTraits_of_hasLastTraits
    (each : ∀ statement ∈ statements, ∃ record traits,
      ShapeStatement.DeclaresShape statement record traits)
    {record : ShapeRecord} {own traits : List Trait} {earlier later : List ShapeStatement}
    {statement : ShapeStatement} (split : statements = earlier ++ statement :: later)
    (declares : ShapeStatement.DeclaresShape statement record own)
    (last : ∀ other ∈ later, ∀ again,
      ¬ ShapeStatement.DeclaresUnder (record.category, record.name) other again)
    (found : HasLastTraits statements record.name traits) :
    record.NameTraits own later traits := by
  by_cases alone : ∀ other ∈ later, ∀ traits, ¬ ShapeStatement.Declares record.name other traits
  · have mine : HasLastTraits statements record.name own := by
      rw [split]
      exact First.reverse_append_of_forall_not declares.traits alone
    rw [found.unique mine]
    exact .own alone
  · push Not at alone
    obtain ⟨namer, member, others, names⟩ := alone
    obtain ⟨traits', first⟩ := First.exists_of_mem (List.mem_reverse.mpr member) names
    obtain ⟨between, other, rest, rfl, declares', behind⟩ := First.exists_append_of_reverse first
    have theirs : HasLastTraits statements record.name traits' := by
      rw [split, ← List.cons_append, ← List.append_assoc]
      exact First.reverse_append_of_forall_not declares' behind
    have isIn : other ∈ between ++ other :: rest := List.mem_append_right _ List.mem_cons_self
    obtain ⟨namesake, traits'', declaresShape⟩ :=
      each other (by rw [split]; exact List.mem_append_right _ (List.mem_cons_of_mem _ isIn))
    obtain ⟨named, rfl⟩ := declaresShape.traits.unique declares'
    rw [found.unique theirs]
    refine .namesake rfl declaresShape named ?_ behind
    intro filed
    exact last other isIn namesake ⟨by rw [filed, named], traits'', declaresShape⟩

/-! ## What a model has of the traits of a shape -/

/-- Whatever is made of the shape has of its traits what these give: the deprecation of a
structure, an enumeration or an operation, the binding of an operation, the title of a service,
the traits that come with a simple shape or in front of those of a list's element, and the
constraints in front of those of an output. -/
structure UsesTraits (index : ShapeIndex) (lines : LineIndex) (record : ShapeRecord)
    (traits : List Trait) : Prop where
  type : ∀ type reports, index.resolveStructure lines record = .ok (type, reports) →
    type.deprecated = Deprecation.ofTraits? lines traits
  enum : ∀ enum, index.resolveEnum lines record = .ok enum →
    enum.deprecated = Deprecation.ofTraits? lines traits
  method : ∀ method reports, index.resolveMethod lines record = .ok (method, reports) →
    method.deprecated = Deprecation.ofTraits? lines traits
  binding : index.bindings [record] =
    (HttpBinding.ofTraits? traits).toList.map fun binding => (record.name, binding)
  title : ∀ options interface header reports,
    index.resolveService lines options record = .ok ((interface, header), reports) →
    header.title = ((Trait.find? traits "title").bind Trait.value?).bind Value.string?
  «alias» : ∀ type reports, record.simple?.isSome = true →
    index.resolveAlias record = .ok (type, reports) → type.traits = traits
  list : ∀ type reports, index.resolveList record = .ok (type, reports) → traits <+: type.traits
  returned : ∀ operation method reports returned,
    index.resolveMethod lines operation = .ok (method, reports) →
    method.returnType = some returned → returned.typeName = record.name →
    ∃ own, returned.rules = Constraint.ofTraits (traits ++ own)

/-- Whatever is said of a record, it is said by the traits that the index has for its name. -/
theorem usesTraits_traitsOf (index : ShapeIndex) (lines : LineIndex) (record : ShapeRecord) :
    index.UsesTraits lines record (index.traitsOf record.name) where
  type type reports success := (resolveStructure_spec success).2.1
  enum enum success := (resolveEnum_spec success).2.1
  method method reports success := (resolveMethod_spec success).2.1
  binding := by
    unfold bindings
    cases found : HttpBinding.ofTraits? (index.traitsOf record.name) with
    | none => simp [found]
    | some binding => simp [found]
  title options interface header reports success := by
    obtain ⟨operations, version, own, -, success⟩ := exists_interfaceOf success
    exact (interfaceOf_spec success).2.2.1
  «alias» type reports simple success := by
    obtain ⟨shape, declared⟩ := Option.isSome_iff_exists.mp simple
    unfold resolveAlias at success
    rw [declared] at success
    obtain ⟨keyword, -, success⟩ := Reporting.read_bind_eq_ok_iff.mp success
    obtain ⟨scalar, _, _, -, final, -⟩ := Reporting.bind_eq_ok_iff.mp success
    cases final
    rfl
  list type reports success := by
    unfold resolveList at success
    cases form : record.aggregate? with
    | none =>
      rw [form] at success
      cases success
      exact List.prefix_rfl
    | some shape =>
      rw [form] at success
      obtain ⟨members, -, success⟩ := Reporting.read_bind_eq_ok_iff.mp success
      cases elements : ShapeMembers.members members with
      | nil =>
        simp only [elements] at success
        obtain ⟨_, _, _, -, final, -⟩ := Reporting.bind_eq_ok_iff.mp success
        cases final
        exact List.prefix_rfl
      | cons element rest =>
        simp only [elements] at success
        obtain ⟨inner, _, _, -, final, -⟩ := Reporting.bind_eq_ok_iff.mp success
        cases final
        exact List.prefix_append _ _
  returned operation method reports returned success given named := by
    obtain ⟨-, -, -, output⟩ := resolveMethod_spec success
    obtain ⟨id, structure_, own, -, -, same, rules⟩ := output returned given
    rw [← same, named] at rules
    exact ⟨own, rules⟩

end ShapeIndex

/-! ## Documents -/

/-- Every shape in the index of a document is that of the last statement of its category and
name. Its name has the traits in front of this statement, unless a later shape of another
category has the name and gives it its own; and whatever a model has of the traits of the
shape comes from these. -/
theorem resolve_traits_of_lastDeclaration {text : String} {events : List Event}
    (accepted : documentEvents text = .ok events) :
    ∃ tree idl index statements,
      documentTree text = .ok (.ok tree) ∧ Idl.ofTree tree = .ok idl ∧
      ShapeIndex.ofIdl idl = .ok index ∧ idl.HasShapes statements ∧
      ∀ category, ∀ record ∈ index.records category,
        ∃ earlier statement later own, statements = earlier ++ statement :: later ∧
          ShapeStatement.DeclaresShape statement record own ∧
          (∀ other ∈ later, ∀ again,
            ¬ ShapeStatement.DeclaresUnder (category, record.name) other again) ∧
          record.NameTraits own later (index.traitsOf record.name) ∧
          ∀ lines, index.UsesTraits lines record (index.traitsOf record.name) := by
  obtain ⟨tree, made, document⟩ := exists_documentTree accepted
  obtain ⟨idl, index, root, indexed, holds⟩ := exists_index_of_isDocument document
  obtain ⟨statements, shapes⟩ := ShapeIndex.exists_hasShapes indexed
  refine ⟨tree, idl, index, statements, made, root, indexed, shapes, ?_⟩
  intro category record member
  obtain ⟨-, filed⟩ := holds.isDeclaredIn member
  have last := (ShapeIndex.keepsLastShape_ofIdl indexed shapes).hasLastShape holds member
  obtain ⟨earlier, statement, later, split, ⟨-, own, declares⟩, behind⟩ :=
    First.exists_append_of_reverse last
  have found := ShapeIndex.hasLastTraits holds (ShapeIndex.keepsLast_ofIdl indexed shapes) member
  have each := ShapeIndex.exists_declaresShape indexed shapes
  have traits := ShapeIndex.nameTraits_of_hasLastTraits each split declares behind found
  rw [filed] at behind
  exact ⟨earlier, statement, later, own, split, declares, behind, traits,
    fun lines => index.usesTraits_traitsOf lines record⟩

/-- A structure with a trait in front of it, and a later list of the same name. -/
def deprecatedNamesake : String :=
  "namespace a\n@deprecated\nstructure A \x7b\x7d\nlist A \x7b member: String \x7d"

/-- Both shapes of such a document have the traits of the later one, which has none. -/
theorem resolve_traits_deprecatedNamesake :
    ∃ events, documentEvents deprecatedNamesake = .ok events ∧
      ∃ tree idl index statements,
        documentTree deprecatedNamesake = .ok (.ok tree) ∧ Idl.ofTree tree = .ok idl ∧
        ShapeIndex.ofIdl idl = .ok index ∧ idl.HasShapes statements ∧
        (index.records .structureShape).map ShapeRecord.name = ["A"] ∧
        ∀ category, ∀ record ∈ index.records category,
          ∃ earlier statement later own, statements = earlier ++ statement :: later ∧
            ShapeStatement.DeclaresShape statement record own ∧
            (∀ other ∈ later, ∀ again,
              ¬ ShapeStatement.DeclaresUnder (category, record.name) other again) ∧
            record.NameTraits own later (index.traitsOf record.name) ∧
            ∀ lines, index.UsesTraits lines record (index.traitsOf record.name) := by
  have computed : (indexed? deprecatedNamesake).any (fun (_, index) =>
      (index.records .structureShape).map ShapeRecord.name == ["A"]) = true := by
    decide +kernel
  obtain ⟨⟨idl, index⟩, found, names⟩ := (Option.any_eq_true _ _).mp computed
  obtain ⟨events, tree, accepted, made, root, indexed, -⟩ := exists_events_of_indexed? found
  obtain ⟨tree', idl', index', statements, made', root', indexed', shapes, each⟩ :=
    resolve_traits_of_lastDeclaration accepted
  cases made.symm.trans made'
  cases root.symm.trans root'
  cases indexed.symm.trans indexed'
  exact ⟨events, accepted, tree, idl, index, statements, made, root, indexed, shapes,
    eq_of_beq names, each⟩

/-- The category of what a statement declares, and the ids of the traits in front of it. -/
def ShapeStatement.traitIds (statement : ShapeStatement) :
    Except Defect (ShapeCategory × List String) := do
  let category ← ShapeCategory.ofDecl (← ShapeStatement.shape statement)
  let traits ← Trait.ofStatements (← ShapeStatement.traits statement)
  return (category, traits.map Trait.id)

/-- The ids of the traits of a statement are those of the traits it declares. -/
theorem ShapeStatement.DeclaresShape.traitIds_eq {statement : ShapeStatement}
    {record : ShapeRecord} {traits : List Trait}
    (declares : ShapeStatement.DeclaresShape statement record traits) :
    ShapeStatement.traitIds statement = .ok (record.category, traits.map Trait.id) := by
  obtain ⟨_, _, part, -, -, -, readPart, readTraits⟩ := declares.traits
  unfold traitIds
  rw [declares.shape, readPart]
  simp only [Outcome.ok_bind, declares.category, readTraits]
  rfl

/-- The structure is marked as deprecated, but its name has the traits of the list, and the
type is not deprecated. -/
theorem resolve_deprecatedNamesake :
    ∃ tree idl index statements statement record own resolution,
      documentTree deprecatedNamesake = .ok (.ok tree) ∧ Idl.ofTree tree = .ok idl ∧
      ShapeIndex.ofIdl idl = .ok index ∧ idl.HasShapes statements ∧
      record ∈ index.records .structureShape ∧ statement ∈ statements ∧
      ShapeStatement.DeclaresShape statement record own ∧
      own.map Trait.id = ["deprecated"] ∧ index.traitsOf record.name = [] ∧
      resolve deprecatedNamesake "a" {} = .ok resolution ∧
      resolution.model.types.map (fun type => (type.name, type.deprecated)) = [("A", none)] := by
  have types : (resolve deprecatedNamesake "a" {}).toOption.any (fun resolution =>
      resolution.model.types.map (fun type => (type.name, type.deprecated)) ==
        [("A", none)]) = true := by
    decide +kernel
  have computed : (indexed? deprecatedNamesake).any (fun (idl, index) =>
      (index.records .structureShape).map ShapeRecord.name == ["A"] &&
      ((index.traitsOf "A").isEmpty &&
      (Idl.shapeSection idl).toOption.any fun part =>
        (((ShapeSection.statements part).map ShapeStatements.shapes).getD []).all fun statement =>
          (ShapeStatement.traitIds statement).toOption.any fun (category, ids) =>
            category != .structureShape || ids == ["deprecated"])) = true := by
    decide +kernel
  obtain ⟨resolution, success, types⟩ := (Option.any_eq_true _ _).mp types
  obtain ⟨⟨idl, index⟩, found, computed⟩ := (Option.any_eq_true _ _).mp computed
  obtain ⟨-, tree, -, made, root, indexed, holds⟩ := exists_events_of_indexed? found
  obtain ⟨names, computed⟩ := Bool.and_eq_true_iff.mp computed
  obtain ⟨unmarked, computed⟩ := Bool.and_eq_true_iff.mp computed
  obtain ⟨part, readPart, each⟩ := (Option.any_eq_true _ _).mp computed
  have shapes : idl.HasShapes _ := ⟨part, Outcome.eq_ok_of_toOption readPart, rfl⟩
  obtain ⟨record, records, named⟩ := List.map_eq_singleton_iff.mp (eq_of_beq names)
  have member : record ∈ index.records .structureShape := by
    rw [records]
    exact List.mem_singleton_self record
  have last := (ShapeIndex.keepsLastShape_ofIdl indexed shapes).hasLastShape holds member
  obtain ⟨earlier, statement, later, split, ⟨-, own, declares⟩, -⟩ :=
    First.exists_append_of_reverse last
  have isIn : statement ∈ earlier ++ statement :: later := by simp
  rw [← split] at isIn
  -- What is computed of every statement holds of the one that declares the structure.
  have ids := List.all_eq_true.mp each statement isIn
  rw [declares.traitIds_eq, (holds.isDeclaredIn member).2] at ids
  have ids : own.map Trait.id == ["deprecated"] := ids
  refine ⟨tree, idl, index, _, statement, record, own, resolution, made, root, indexed, shapes,
    member, isIn, declares, eq_of_beq ids, ?_, Outcome.eq_ok_of_toOption success, eq_of_beq types⟩
  rw [named]
  exact List.isEmpty_iff.mp unmarked

end ServiceIdl
