import ServiceIdl.Proofs.Resolve.Rules
import ServiceIdl.Proofs.Shape.Entries
import ServiceIdl.Proofs.Shape.Keyword

/-!
# What a model is made of

The types of a model are those of the `structure` statements of its document, its
enumerations those of the `enum` and `intEnum` statements, and its interfaces those of the
`service` statements: one for each name, in the order of the first statements with the name,
and built from the last one. No other statement has a part in these lists.
-/

namespace ServiceIdl

variable {text : List Char} {index : ShapeIndex} {lines : LineIndex} {path : String}
  {options : Options} {statements : List ShapeStatement} {heads : List (String × String)}

/-- There is one part for each name that is declared with one of the words, in the order of
the first declarations, and it is built from the last declaration of the name. -/
def EachDeclared {α : Type} (statements : List ShapeStatement) (heads : List (String × String))
    (keywords : List String) (built : String → ShapeDecl → α → Prop) (parts : List α) : Prop :=
  ∃ names, IsFirstOccurrences names (declaredNames keywords heads) ∧
    List.Forall₂ (fun name part => ∃ decl,
      IsLastDeclared statements keywords name decl ∧ built name decl part) names parts

/-! ## How a part is built -/

/-- The type has the name, and a property for each member of the declaration. -/
structure StructureType.IsBuiltFrom (index : ShapeIndex) (lines : LineIndex) (name : String)
    (decl : ShapeDecl) (type : StructureType) : Prop where
  named : type.name = name
  located : type.location = lines.locate decl.span
  properties : ∃ shape members, ShapeDecl.form decl = .aggregate shape ∧
    AggregateShape.members shape = .ok members ∧
    List.Forall₂ (fun member property => ∃ own,
        index.resolveMember lines (AggregateShape.mixins shape) member = .ok (property, own))
      (ShapeMembers.members members) type.properties

/-- The last entry of the body with the key is a text. -/
def Trait.HasText (t : Trait) (key text : String) : Prop :=
  ∃ body, t.body = some body ∧ body.HasLast key (.string text)

/-- The last `deprecated` trait of these says what the deprecation says. -/
def Deprecation.IsGivenBy (lines : LineIndex) (traits : List Trait) (d : Deprecation) : Prop :=
  ∃ t, IsLast (fun t => t.id = "deprecated") traits t ∧ d.location = lines.locate t.span ∧
    (∀ text, d.message = some text ↔ t.HasText "message" text) ∧
    ∀ text, d.since = some text ↔ t.HasText "since" text

/-- The member is written with this text or this integer behind it. -/
def EnumShapeMember.HasLiteral (member : EnumShapeMember) (given : EnumLiteral) : Prop :=
  ∃ assignment node, EnumShapeMember.value member = some assignment ∧
    ValueAssignment.value assignment = .ok node ∧
    match given with
    | .string text => Value.ofNode node = .ok (.string text)
    | .integer n => Value.ofNode node = .ok (.number (.integer n))

/-- The value has the name and the place of the member, its literal if that is a text or an
integer, and the deprecation that its traits give. -/
structure EnumValue.IsBuiltFrom (lines : LineIndex) (member : EnumShapeMember)
    (value : EnumValue) : Prop where
  named : ∃ name, EnumShapeMember.name member = .ok name ∧ value.name = name.text
  located : value.location = lines.locate member.span
  literal : ∀ given, value.value = some given ↔ member.HasLiteral given
  deprecated : ∃ part traits, EnumShapeMember.traits member = .ok part ∧
    Trait.ofStatements part = .ok traits ∧
    ∀ d, value.deprecated = some d ↔ d.IsGivenBy lines traits

/-- The enumeration has the name and kind of the declaration, and a value for each of its
members. -/
structure EnumType.IsBuiltFrom (lines : LineIndex) (name : String) (decl : ShapeDecl)
    (enum : EnumType) : Prop where
  named : enum.name = name
  located : enum.location = lines.locate decl.span
  values : ∃ shape word members, ShapeDecl.form decl = .enum shape ∧
    EnumShape.typeName shape = .ok word ∧ EnumShape.members shape = .ok members ∧
    enum.kind = (if word.text = "intEnum" then .intEnum else .enum) ∧
    List.Forall₂ (fun member value => EnumValue.ofMember lines member = .ok value ∧
        value.IsBuiltFrom lines member)
      (EnumShapeMembers.members members) enum.values

/-- The interface has the name that the options make of the service's, and a method for each
operation of the document that the declaration lists. -/
structure Interface.IsBuiltFrom (index : ShapeIndex) (lines : LineIndex) (options : Options)
    (name : String) (decl : ShapeDecl) (interface : Interface) : Prop where
  named : interface.name = options.interfaceName name
  located : interface.location = lines.locate decl.span
  methods : ∃ (operations : List ShapeRecord) (own : List Report),
    (∀ operation, operation ∈ operations ↔ ∃ id,
      ShapeRecord.Lists ⟨.service, name, decl⟩ id ∧ index.find? .operation id = some operation) ∧
    operations.mapM (index.resolveMethod lines) = .ok (interface.methods, own)
  resolved : ∃ header own, index.resolveService lines options ⟨.service, name, decl⟩ =
    .ok ((interface, header), own)

/-! ## Values of enumerations -/

theorem Trait.hasText_iff {t : Trait} {key text : String} :
    t.HasText key text ↔ (t.field? key).bind Value.string? = some text := by
  unfold HasText field?
  simp only [Option.bind_eq_some_iff, Value.string?_eq_some_iff, exists_eq_right,
    TraitBody.field?_eq_some_iff]

/-- What deprecates is the last `deprecated` trait. -/
theorem Deprecation.ofTraits?_eq_some_iff {traits : List Trait} {d : Deprecation} :
    ofTraits? lines traits = some d ↔ d.IsGivenBy lines traits := by
  unfold ofTraits? IsGivenBy Trait.find?
  simp only [Option.map_eq_some_iff, find?_reverse_eq_some_iff, Trait.hasText_iff]
  refine exists_congr fun t => and_congr_right fun _ => ?_
  constructor
  · intro same
    rw [← same]
    exact ⟨rfl, fun _ => Iff.rfl, fun _ => Iff.rfl⟩
  · intro fits
    rcases d with ⟨location, message, since⟩
    rcases fits with ⟨rfl, said, dated⟩
    obtain rfl : message = _ := Option.ext said
    obtain rfl : since = _ := Option.ext dated
    rfl

/-- Texts and integers are literals as they are. -/
theorem EnumLiteral.ofValue?_eq_some_iff {value : Value} {given : EnumLiteral} :
    ofValue? value = some given ↔
      match given with
      | .string text => value = .string text
      | .integer n => value = .number (.integer n) := by
  cases value with
  | number number => cases number <;> cases given <;> simp [ofValue?]
  | _ => cases given <;> simp [ofValue?]

/-- The literal of an enum value is read off its member. -/
theorem EnumValue.literalOf?_spec {member : EnumShapeMember} {found : Option EnumLiteral}
    (read : literalOf? member = .ok found) (given : EnumLiteral) :
    found = some given ↔ member.HasLiteral given := by
  unfold literalOf? at read
  unfold EnumShapeMember.HasLiteral
  cases written : EnumShapeMember.value member with
  | none =>
    rw [written] at read
    cases read
    simp
  | some assignment =>
    rw [written] at read
    obtain ⟨node, readNode, read⟩ := Outcome.bind_eq_ok_iff.mp read
    obtain ⟨value, readValue, final⟩ := Outcome.bind_eq_ok_iff.mp read
    cases final
    rw [EnumLiteral.ofValue?_eq_some_iff]
    cases given <;> simp [readNode, readValue]

/-- Name, literal, deprecation and place of an enum value come from its member. -/
theorem EnumValue.isBuiltFrom_of_ofMember {member : EnumShapeMember} {value : EnumValue}
    (read : ofMember lines member = .ok value) : value.IsBuiltFrom lines member := by
  obtain ⟨part, readPart, read⟩ := Outcome.bind_eq_ok_iff.mp read
  obtain ⟨traits, readTraits, read⟩ := Outcome.bind_eq_ok_iff.mp read
  obtain ⟨found, readFound, read⟩ := Outcome.bind_eq_ok_iff.mp read
  obtain ⟨name, readName, final⟩ := Outcome.bind_eq_ok_iff.mp read
  cases final
  exact ⟨⟨name, readName, rfl⟩, rfl, EnumValue.literalOf?_spec readFound, part, traits, readPart,
    readTraits, fun d => Deprecation.ofTraits?_eq_some_iff⟩

namespace ShapeIndex

/-- A structure is built from its declaration, members in order. -/
theorem isBuiltFrom_of_resolveStructure {record : ShapeRecord} {type : StructureType}
    {own : List Report} (declared : record.IsDeclaredIn text)
    (filed : record.category = .structureShape)
    (success : index.resolveStructure lines record = .ok (type, own)) :
    type.IsBuiltFrom index lines record.name record.decl := by
  obtain ⟨named, -, located, members⟩ := resolveStructure_spec success
  obtain ⟨shape, form, -⟩ := declared.exists_aggregate? (.inr filed)
  refine ⟨named, located, shape, ?_⟩
  unfold resolveMembers at members
  rw [form] at members
  obtain ⟨listed, read, resolved⟩ := Reporting.read_bind_eq_ok_iff.mp members
  refine ⟨listed, ShapeRecord.aggregate?_eq_some_iff.mp form, read, ?_⟩
  exact Reporting.forall₂_of_mapM_eq_ok (fun _ _ _ own success => ⟨own, success⟩) resolved

/-- An enum is built from its declaration, values in order. -/
theorem isBuiltFrom_of_resolveEnum {record : ShapeRecord} {enum : EnumType}
    (declared : record.IsDeclaredIn text) (filed : record.category = .enum)
    (success : index.resolveEnum lines record = .ok enum) :
    enum.IsBuiltFrom lines record.name record.decl := by
  obtain ⟨named, -, located, read⟩ := resolveEnum_spec success
  have formed := ShapeCategory.isOfForm_ofDecl declared.category
  rw [filed] at formed
  cases form : ShapeDecl.form record.decl with
  | simple | aggregate | entity | operation =>
    rw [form] at formed
    cases formed
  | enum shape =>
    have read := read shape (ShapeRecord.enum?_eq_some_iff.mpr form)
    obtain ⟨word, readWord, read⟩ := Outcome.bind_eq_ok_iff.mp read
    obtain ⟨members, readMembers, read⟩ := Outcome.bind_eq_ok_iff.mp read
    obtain ⟨values, each, final⟩ := Outcome.bind_eq_ok_iff.mp read
    obtain ⟨kind, rfl⟩ := Prod.mk.inj (Except.ok.inj final)
    exact ⟨named, located, shape, word, members, form, readWord, readMembers, kind.symm,
      (Outcome.mapM_eq_ok_iff.mp each).imp fun member value read =>
        ⟨read, EnumValue.isBuiltFrom_of_ofMember read⟩⟩

theorem isBuiltFrom_of_resolveService {record : ShapeRecord} {interface : Interface}
    {header : ServiceHeader} {own : List Report} (filed : record.category = .service)
    (success : index.resolveService lines options record = .ok ((interface, header), own)) :
    interface.IsBuiltFrom index lines options record.name record.decl := by
  obtain ⟨operations, version, _, listed, made⟩ := exists_interfaceOf success
  obtain ⟨⟨_, methods⟩, -, -, named, located⟩ := interfaceOf_spec made
  obtain ⟨category, name, decl⟩ := record
  cases filed
  exact ⟨named, located, ⟨operations, _, listed, methods⟩, header, own, success⟩

/-! ## Models -/

/-- The shapes of a category, with what is made of each, are what is declared with its
words. -/
theorem eachDeclared_of_records {α : Type} (category : ShapeCategory)
    {built : String → ShapeDecl → α → Prop} {parts : List α} (holds : index.IsOf text)
    (keeps : KeepsLastShape statements index)
    (within : ∀ statement ∈ statements, statement.tree.IsPart text)
    (each : ∀ statement ∈ statements, ∃ record traits,
      ShapeStatement.DeclaresShape statement record traits)
    (names : (index.records category).map ShapeRecord.name =
      (declaredNames category.keywords heads).eraseDups)
    (made : List.Forall₂ (fun record part => record ∈ index.records category ∧
      built record.name record.decl part) (index.records category) parts) :
    EachDeclared statements heads category.keywords built parts := by
  refine ⟨_, isFirstOccurrences_eraseDups _, ?_⟩
  rw [← names, List.forall₂_map_left_iff]
  refine made.imp ?_
  rintro record part ⟨member, part⟩
  have last := keeps.hasLastShape holds member
  rw [(holds.isDeclaredIn member).2] at last
  exact ⟨record.decl, last.isLastDeclared within each, part⟩

end ShapeIndex

/-- The lists of the model of an accepted document, each from the statements with its words. -/
theorem resolve_contents {text : String} {events : List Event}
    (accepted : documentEvents text = .ok events) (path : String) (options : Options) :
    ∃ tree idl index statements heads resolution,
      documentTree text = .ok (.ok tree) ∧ Idl.ofTree tree = .ok idl ∧
      ShapeIndex.ofIdl idl = .ok index ∧ idl.HasShapes statements ∧
      List.Forall₂ (fun statement head => ShapeStatement.head statement = .ok head)
        statements heads ∧
      (∀ head ∈ heads, ∃ category, head.1 ∈ ShapeCategory.keywords category) ∧
      resolve text path options = .ok resolution ∧
      EachDeclared statements heads ["structure"]
        (StructureType.IsBuiltFrom index (.ofText text)) resolution.model.types ∧
      EachDeclared statements heads ["enum", "intEnum"]
        (EnumType.IsBuiltFrom (.ofText text)) resolution.model.enums ∧
      EachDeclared statements heads ["service"]
        (Interface.IsBuiltFrom index (.ofText text) options) resolution.model.interfaces ∧
      resolution.model.unions = [] := by
  obtain ⟨tree, idl, index, model, reports, made, document, root, indexed, holds, modelled,
    resolved⟩ := exists_model_of_accepted accepted path options
  obtain ⟨statements, shapes⟩ := ShapeIndex.exists_hasShapes indexed
  have whole : idl.tree.IsPart text.toList := by
    rw [Idl.ofTree_eq_ok_iff.mp root]
    exact document.isPart
  have within := shapes.isPart whole
  have keeps := ShapeIndex.keepsLastShape_ofIdl indexed shapes
  have each := ShapeIndex.exists_declaresShape indexed shapes
  obtain ⟨keys, keyed, arrived⟩ := ShapeIndex.keepsArrival_ofIdl indexed shapes
  obtain ⟨heads, headed, words, declared⟩ := exists_heads keyed within
  have names (category : ShapeCategory) : (index.records category).map ShapeRecord.name =
      (declaredNames category.keywords heads).eraseDups := by
    rw [ShapeIndex.names_eq_eraseDups holds arrived, declared]
  obtain ⟨services, _, _, _, _, _, served, typed, enumerated, -, interfaces, unions, -⟩ :=
    ShapeIndex.resolveModel_spec modelled
  refine ⟨tree, idl, index, statements, heads, _, made, root, indexed, shapes, headed, words,
    resolved, ?_, ?_, ?_, unions⟩
  · refine ShapeIndex.eachDeclared_of_records .structureShape holds keeps within each (names _) ?_
    refine Reporting.forall₂_of_mapM_eq_ok ?_ typed
    intro record member type own success
    obtain ⟨inside, filed⟩ := holds.isDeclaredIn member
    exact ⟨member, ShapeIndex.isBuiltFrom_of_resolveStructure inside filed success⟩
  · refine ShapeIndex.eachDeclared_of_records .enum holds keeps within each (names _) ?_
    refine Reporting.forall₂_of_mapM_eq_ok ?_ enumerated
    intro record member enum own success
    obtain ⟨inside, filed⟩ := holds.isDeclaredIn member
    obtain ⟨success, -⟩ := Reporting.lift_eq_ok_iff.mp success
    exact ⟨member, ShapeIndex.isBuiltFrom_of_resolveEnum inside filed success⟩
  · change EachDeclared statements heads (ShapeCategory.keywords .service) _ model.interfaces
    refine ShapeIndex.eachDeclared_of_records .service holds keeps within each (names _) ?_
    rw [interfaces, List.forall₂_map_right_iff]
    refine Reporting.forall₂_of_mapM_eq_ok ?_ served
    intro record member service own success
    obtain ⟨-, filed⟩ := holds.isDeclaredIn member
    exact ⟨member, ShapeIndex.isBuiltFrom_of_resolveService filed success⟩

/-- Names that are declared again, in the same category and in others. -/
def declaredAgain : String :=
  "namespace a\nstructure A \x7b x: String \x7d\nenum B \x7b X \x7d\nstructure C \x7b\x7d\n" ++
    "structure A \x7b y: String \x7d\nlist A \x7b member: String \x7d\nenum C \x7b Z \x7d\n" ++
    "service V \x7b\x7d"

/-- The first `A` gives the place and the last one the property; `C` is a type and an
enumeration. -/
theorem resolve_contents_declaredAgain :
    ∃ events, documentEvents declaredAgain = .ok events ∧
      ∃ tree idl index statements heads resolution,
        documentTree declaredAgain = .ok (.ok tree) ∧ Idl.ofTree tree = .ok idl ∧
        ShapeIndex.ofIdl idl = .ok index ∧ idl.HasShapes statements ∧
        List.Forall₂ (fun statement head => ShapeStatement.head statement = .ok head)
          statements heads ∧
        resolve declaredAgain "a" {} = .ok resolution ∧
        EachDeclared statements heads ["structure"]
          (StructureType.IsBuiltFrom index (.ofText declaredAgain)) resolution.model.types ∧
        resolution.model.types.map (fun type =>
            (type.name, type.properties.map Member.name)) = [("A", ["y"]), ("C", [])] ∧
        resolution.model.enums.map EnumType.name = ["B", "C"] ∧
        resolution.model.interfaces.map Interface.name = ["V"] := by
  have computed : (resolve declaredAgain "a" {}).toOption.any (fun resolution =>
      resolution.model.types.map (fun type => (type.name, type.properties.map Member.name)) ==
        [("A", ["y"]), ("C", [])] &&
      (resolution.model.enums.map EnumType.name == ["B", "C"] &&
      resolution.model.interfaces.map Interface.name == ["V"])) = true := by
    decide +kernel
  obtain ⟨known, success, computed⟩ := (Option.any_eq_true _ _).mp computed
  have success := Outcome.eq_ok_of_toOption success
  obtain ⟨types, computed⟩ := Bool.and_eq_true_iff.mp computed
  obtain ⟨enums, interfaces⟩ := Bool.and_eq_true_iff.mp computed
  have some : known.model.types ≠ [] := by
    intro none
    simp [none] at types
  obtain ⟨events, accepted⟩ := exists_events_of_types success some
  obtain ⟨tree, idl, index, statements, heads, resolution, made, root, indexed, shapes, headed, -,
    resolved, each, -⟩ := resolve_contents accepted "a" {}
  cases success.symm.trans resolved
  exact ⟨events, accepted, tree, idl, index, statements, heads, known, made, root, indexed, shapes,
    headed, resolved, each, eq_of_beq types, eq_of_beq enums, eq_of_beq interfaces⟩

end ServiceIdl
