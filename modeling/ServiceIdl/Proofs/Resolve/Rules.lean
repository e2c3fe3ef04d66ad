import ServiceIdl.Proofs.Resolve.Sources
import ServiceIdl.Proofs.Resolve.Steps

/-!
# The constraints of members

The constraints of a member are those of the traits that it collects, each once and at
the place of its first occurrence (`ShapeIndex.resolveMember_rules`). The proofs follow
the resolver from the types of ids to members, with one lemma for each function; each
says that the traits of the resolved type are the ones that `Sources` describes.
-/

namespace ServiceIdl

open Outcome (bind_eq_ok_iff)

/-- The constraints that a trait stands for, none if it is no restriction. -/
def Constraint.ofTrait (t : Trait) : List Constraint := (Constraint.ofTrait? t).getD []

/-- Constraints are listed in the order in which traits first stand for them. -/
theorem Constraint.isFirstOccurrences_ofTraits (traits : List Trait) :
    IsFirstOccurrences (Constraint.ofTraits traits) (traits.flatMap Constraint.ofTrait) :=
  isFirstOccurrences_eraseDups _

namespace ShapeIndex

variable {text : List Char} {index : ShapeIndex} {statements : List ShapeStatement}

/-! ## Targets -/

/-- A mixin provides the target that is read off its members. -/
theorem providesWith_iff {name : String} {mixin : ShapeId} {found : Option MemberTarget}
    (read : index.mixinMember? name mixin = .ok found) (target : MemberTarget) :
    index.ProvidesWith name mixin target ↔ found = some target := by
  rw [← Option.map_id' (x := found)]
  refine offers_iff (fun member found asked => ?_) read target
  rw [Option.map_id']
  exact ShapeMember.declaresWith_iff asked

/-- The first mixin that provides a target is the one that is found. -/
theorem first_providesWith_iff {name : String} {mixins : List ShapeId}
    {found : Option MemberTarget} (read : mixins.findSomeM? (index.mixinMember? name) = .ok found)
    (target : MemberTarget) :
    First (index.ProvidesWith name) mixins target ↔ found = some target := by
  rw [← Option.map_id' (x := found)]
  refine Outcome.first_iff_of_findSomeM? (fun mixin _ found asked target => ?_) read target
  rw [Option.map_id']
  exact providesWith_iff asked target

/-- What is found for a member is what it refers to. -/
theorem takes_iff {shape : AggregateShape} {member : ShapeMember} {decl : MemberDecl}
    {found : Option MemberTarget} (part : decl.tree.IsPart text)
    (readDecl : ShapeMember.decl member = .ok decl)
    (read : index.memberTarget? (AggregateShape.mixins shape) decl = .ok found)
    (target : MemberTarget) : index.Takes shape member target ↔ found = some target := by
  rw [← Option.map_id' (x := found)]
  refine obtains_iff ?_ ?_ (fun name member found asked => ?_) part readDecl read target
  · intro member name id declares target
    rcases target with ⟨id', inherited⟩
    constructor
    · intro declaring
      rcases declaring with ⟨_, declares', rfl⟩
      rw [declares.unique declares']
    · intro same
      cases same
      exact ⟨name, declares, rfl⟩
  · intro member name elides target declaring
    rcases declaring with ⟨_, declares, -⟩
    exact declares.not_elides elides
  · rw [Option.map_id']
    exact ShapeMember.declaresWith_iff asked

/-! ## The traits of types -/

/-- What holds of the index of a document, with the statements of the document. -/
structure IsOfStatements (text : List Char) (statements : List ShapeStatement)
    (index : ShapeIndex) : Prop extends index.IsOf text where
  keeps : KeepsLast statements index

/-- An id that refers to a simple shape is no builtin, and the shape is found. -/
theorem isBuiltin_eq_false_of_typeRef {id : String} {record : ShapeRecord}
    (ref : index.typeRef id = .alias record) :
    isBuiltin id = false ∧ index.find? .simple id = some record := by
  unfold typeRef at ref
  split at ref
  · cases ref
  · rename_i keyword
    cases wrapper : Scalar.ofWrapper? id with
    | some scalar =>
      rw [wrapper] at ref
      cases ref
    | none =>
      rw [wrapper] at ref
      refine ⟨by simp [isBuiltin, keyword, wrapper], ?_⟩
      cases found : index.find? .simple id with
      | some shape =>
        rw [found] at ref
        cases ref
        rfl
      | none =>
        rw [found] at ref
        simp only at ref
        split at ref
        · cases ref
        · cases ref

/-- Where no simple shape is looked through, the id means a type of the language or
names none. -/
theorem isBuiltin_or_find?_of_typeRef {id : String}
    (ref : ∀ record, index.typeRef id ≠ .alias record) :
    isBuiltin id = true ∨ index.find? .simple id = none := by
  unfold typeRef at ref
  unfold isBuiltin
  cases keyword : Scalar.isKeyword id with
  | true => exact .inl rfl
  | false =>
    cases wrapper : Scalar.ofWrapper? id with
    | some scalar => exact .inl rfl
    | none =>
      cases found : index.find? .simple id with
      | none => exact .inr rfl
      | some record =>
        refine absurd ?_ (ref record)
        simp [keyword, wrapper, found]

/-- The traits of the type are those that the id of an element has. -/
theorem elementTraits_of_resolveTypeRef (holds : index.IsOfStatements text statements)
    {id : String} {span : Span} {resolved : ResolvedType} {reports : List Report}
    (success : index.resolveTypeRef id span = .ok (resolved, reports)) :
    index.ElementTraits statements id resolved.traits := by
  unfold resolveTypeRef at success
  cases ref : index.typeRef id with
  | keyword word =>
    rw [ref] at success
    obtain ⟨scalar, _, _, -, final, -⟩ := Reporting.bind_eq_ok_iff.mp success
    cases final
    exact .other (isBuiltin_or_find?_of_typeRef (by simp [ref]))
  | wrapper | expectedPrimitive | named =>
    rw [ref] at success
    cases success
    exact .other (isBuiltin_or_find?_of_typeRef (by simp [ref]))
  | «alias» record =>
    rw [ref] at success
    obtain ⟨own, found⟩ := isBuiltin_eq_false_of_typeRef ref
    have member := mem_records_of_find? found
    obtain ⟨declared, filed⟩ := holds.toIsOf.isDeclaredIn member
    obtain ⟨shape, simple, -⟩ := declared.exists_simple? filed
    change index.resolveAlias record = _ at success
    unfold resolveAlias at success
    rw [simple] at success
    obtain ⟨keyword, -, rest⟩ := Reporting.read_bind_eq_ok_iff.mp success
    obtain ⟨scalar, _, _, -, final, -⟩ := Reporting.bind_eq_ok_iff.mp rest
    cases final
    exact .simple own found (hasLastTraits holds.toIsOf holds.keeps member)

/-! ## The traits of members -/

/-- A member of any shape collects what comes with its target, what it inherits and its
own, if the type of a target has what comes with it. -/
theorem memberTraits_of_memberTarget? {shape : AggregateShape} {member : ShapeMember}
    {decl : MemberDecl} {part : TraitStatements} {own : List Trait} (met : List Trait)
    {found : Option MemberTarget} {through : String → List Trait → Prop}
    (partDecl : decl.tree.IsPart text) (readDecl : ShapeMember.decl member = .ok decl)
    (readPart : ShapeMember.traits member = .ok part)
    (readTraits : Trait.ofStatements part = .ok own)
    (read : index.memberTarget? (AggregateShape.mixins shape) decl = .ok found)
    (comes : ∀ target, found = some target → through target.id met) :
    index.MemberTraits through shape member
      ((found.map fun target => met ++ target.inherited).getD [] ++ own) := by
  have takes := takes_iff partDecl readDecl read
  have hasOwn : ShapeMember.HasTraits member own := ⟨part, readPart, readTraits⟩
  cases found with
  | none =>
    refine .untargeted ?_ hasOwn
    intro target taken
    cases (takes target).mp taken
  | some target => exact .targeted ((takes target).mpr rfl) (comes target rfl) hasOwn

/-- The traits of an element are those of what it refers to and its own. -/
theorem memberTraits_of_resolveElement (holds : index.IsOfStatements text statements)
    {shape : AggregateShape} {element : ShapeMember} (part : element.tree.IsPart text)
    {resolved : ResolvedType} {reports : List Report}
    (success : index.resolveElement shape element = .ok (resolved, reports)) :
    index.MemberTraits (index.ElementTraits statements) shape element resolved.traits := by
  obtain ⟨decl, readDecl, rest⟩ := Reporting.read_bind_eq_ok_iff.mp success
  obtain ⟨part', readPart, rest⟩ := Reporting.read_bind_eq_ok_iff.mp rest
  obtain ⟨own, readTraits, rest⟩ := Reporting.read_bind_eq_ok_iff.mp rest
  obtain ⟨found, read, rest⟩ := Reporting.read_bind_eq_ok_iff.mp rest
  have partDecl := View.isPart_of_required part readDecl
  cases found with
  | none =>
    obtain ⟨name, -, rest⟩ := Reporting.read_bind_eq_ok_iff.mp rest
    obtain ⟨_, _, _, -, final, -⟩ := Reporting.bind_eq_ok_iff.mp rest
    cases final
    exact memberTraits_of_memberTarget? [] partDecl readDecl readPart readTraits read
      (by simp)
  | some target =>
    obtain ⟨inner, _, _, success', final, -⟩ := Reporting.bind_eq_ok_iff.mp rest
    cases final
    refine memberTraits_of_memberTarget? _ partDecl readDecl readPart readTraits read ?_
    intro target' same
    cases same
    exact elementTraits_of_resolveTypeRef holds success'

/-- The traits of a list are its own and those of its element. -/
theorem listTraits_of_resolveList (holds : index.IsOfStatements text statements)
    {list : ShapeRecord} (member : list ∈ index.records .list) {resolved : ResolvedType}
    {reports : List Report} (success : index.resolveList list = .ok (resolved, reports)) :
    index.ListTraits statements list resolved.traits := by
  obtain ⟨declared, filed⟩ := holds.toIsOf.isDeclaredIn member
  obtain ⟨shape, aggregate, part⟩ := declared.exists_aggregate? (.inl filed)
  have own := hasLastTraits holds.toIsOf holds.keeps member
  unfold resolveList at success
  simp only [aggregate] at success
  obtain ⟨members, readMembers, rest⟩ := Reporting.read_bind_eq_ok_iff.mp success
  have partMembers := View.isPart_of_required part readMembers
  cases elements : ShapeMembers.members members with
  | nil =>
    rw [elements] at rest
    obtain ⟨_, _, _, -, final, -⟩ := Reporting.bind_eq_ok_iff.mp rest
    cases final
    exact .empty aggregate ⟨members, readMembers, elements⟩ own
  | cons element others =>
    rw [elements] at rest
    obtain ⟨inner, _, _, success', final, -⟩ := Reporting.bind_eq_ok_iff.mp rest
    cases final
    have first : element ∈ ShapeMembers.members members := by
      rw [elements]
      exact List.mem_cons_self
    have collected :=
      memberTraits_of_resolveElement holds (View.isPart_of_mem_many partMembers first) success'
    exact .element aggregate ⟨members, readMembers, elements⟩ own collected

/-- The traits of a target are those of the list or of the element. -/
theorem targetTraits_of_resolveTarget (holds : index.IsOfStatements text statements)
    {id : String} {span : Span} {resolved : ResolvedType} {reports : List Report}
    (success : index.resolveTarget id span = .ok (resolved, reports)) :
    index.TargetTraits statements id resolved.traits := by
  unfold resolveTarget at success
  cases builtin : isBuiltin id with
  | true =>
    simp only [listRef?, builtin, ↓reduceIte] at success
    exact .other (.inl builtin) (elementTraits_of_resolveTypeRef holds success)
  | false =>
    simp only [listRef?, builtin, Bool.false_eq_true, ↓reduceIte] at success
    cases found : index.find? .list id with
    | none =>
      rw [found] at success
      exact .other (.inr found) (elementTraits_of_resolveTypeRef holds success)
    | some list =>
      rw [found] at success
      have member := mem_records_of_find? found
      exact .list builtin found (listTraits_of_resolveList holds member success)

/-- The constraints of a member are those of the traits that it collects. -/
theorem resolveMember_rules (holds : index.IsOfStatements text statements) (lines : LineIndex)
    {shape : AggregateShape} {member : ShapeMember} (part : member.tree.IsPart text)
    {resolved : Member} {reports : List Report}
    (success : index.resolveMember lines (AggregateShape.mixins shape) member =
      .ok (resolved, reports)) :
    ∃ traits, index.Collects statements shape member traits ∧
      IsFirstOccurrences resolved.rules (traits.flatMap Constraint.ofTrait) := by
  obtain ⟨decl, _, part', own, type, _, readDecl, -, readPart, readTraits, typed, rfl, -⟩ :=
    resolveMember_spec success
  refine ⟨type.traits ++ own, ?_, Constraint.isFirstOccurrences_ofTraits _⟩
  have partDecl := View.isPart_of_required part readDecl
  rcases resolveMemberType_spec typed with ⟨read, rfl, -⟩ | ⟨target, inner, read, given, rfl⟩
  · exact memberTraits_of_memberTarget? [] partDecl readDecl readPart readTraits read (by simp)
  · refine memberTraits_of_memberTarget? _ partDecl readDecl readPart readTraits read ?_
    intro target' same
    cases same
    exact targetTraits_of_resolveTarget holds given

/-! ## Structures -/

/-- The properties of the type stand for the members of the structure, in their order,
and each has the constraints of the traits that its member collects. -/
def HasRules (index : ShapeIndex) (statements : List ShapeStatement) (record : ShapeRecord)
    (type : StructureType) : Prop :=
  ∃ shape members,
    record.aggregate? = some shape ∧ AggregateShape.HasMembers shape members ∧
    type.name = record.name ∧
    List.Forall₂
      (fun member property => ∃ traits, index.Collects statements shape member traits ∧
        IsFirstOccurrences (Member.rules property) (traits.flatMap Constraint.ofTrait))
      members type.properties

/-- The constraints of each property come from the traits of its target and its own. -/
theorem resolveStructure_rules (holds : index.IsOfStatements text statements)
    (lines : LineIndex) {record : ShapeRecord} (member : record ∈ index.records .structureShape)
    {type : StructureType} {reports : List Report}
    (success : index.resolveStructure lines record = .ok (type, reports)) :
    index.HasRules statements record type := by
  obtain ⟨declared, filed⟩ := holds.toIsOf.isDeclaredIn member
  obtain ⟨shape, aggregate, part⟩ := declared.exists_aggregate? (.inr filed)
  obtain ⟨named, -, -, resolved⟩ := resolveStructure_spec success
  unfold resolveMembers at resolved
  simp only [aggregate] at resolved
  obtain ⟨members, readMembers, resolved⟩ := Reporting.read_bind_eq_ok_iff.mp resolved
  have partMembers := View.isPart_of_required part readMembers
  refine ⟨shape, _, aggregate, ⟨members, readMembers, rfl⟩, named, ?_⟩
  refine Reporting.forall₂_of_mapM_eq_ok ?_ resolved
  intro member present property own success
  exact resolveMember_rules holds lines (View.isPart_of_mem_many partMembers present) success

/-- The types of a model have the constraints that the structures say. -/
theorem resolveModel_rules (holds : index.IsOfStatements text statements) {lines : LineIndex}
    {path : String} {options : Options} {model : ServiceModel} {reports : List Report}
    (success : index.resolveModel lines path options = .ok (model, reports)) :
    List.Forall₂ (index.HasRules statements) (index.records .structureShape) model.types := by
  obtain ⟨_, _, _, _, _, _, -, typed, -⟩ := resolveModel_spec success
  refine Reporting.forall₂_of_mapM_eq_ok ?_ typed
  intro record member type own success
  exact resolveStructure_rules holds lines member success

end ShapeIndex

/-! ## Documents -/

/-- In every document, each member of a structure has the constraints of exactly the
traits that it collects, each once and in the order of their first occurrences. -/
theorem resolve_rules_of_collected {text : String} {events : List Event}
    (accepted : documentEvents text = .ok events) (path : String) (options : Options) :
    ∃ tree idl index statements resolution,
      documentTree text = .ok (.ok tree) ∧ Idl.ofTree tree = .ok idl ∧
      ShapeIndex.ofIdl idl = .ok index ∧ idl.HasShapes statements ∧
      resolve text path options = .ok resolution ∧
      List.Forall₂ (index.HasRules statements) (index.records .structureShape)
        resolution.model.types ∧
      ∀ shape member traits others, index.Collects statements shape member traits →
        index.Collects statements shape member others → traits = others := by
  obtain ⟨tree, made, document⟩ := exists_documentTree accepted
  obtain ⟨idl, index, root, indexed, holds⟩ := exists_index_of_isDocument document
  obtain ⟨part, readPart, -⟩ := Outcome.bind_eq_ok_iff.mp indexed
  obtain ⟨model, reports, resolved, -⟩ :=
    ShapeIndex.succeeds_resolveModel holds (.ofText text) path options
  let statements := ((ShapeSection.statements part).map ShapeStatements.shapes).getD []
  have shapes : idl.HasShapes statements := ⟨part, readPart, rfl⟩
  have ofStatements : index.IsOfStatements text.toList statements :=
    ⟨holds, ShapeIndex.keepsLast_ofIdl indexed shapes⟩
  exact ⟨tree, idl, index, statements, _, made, root, indexed, shapes,
    resolve_eq made root indexed resolved, ShapeIndex.resolveModel_rules ofStatements resolved,
    fun _ _ _ _ => ShapeIndex.Collects.unique⟩

/-- A structure whose member comes from a mixin, refers to a list, and has an alias as
its elements. -/
def layeredRules : String :=
  "namespace a\nstructure M \x7b @length(min: 1) n: L \x7d\n" ++
    "@uniqueItems\nlist L \x7b @pattern(\"x\") member: A \x7d\n" ++
    "@length(max: 9)\nstring A\nstructure S with [M] \x7b @required @uniqueItems $n \x7d"

/-- Every layer adds its constraints, from the list inwards and then outwards again. -/
theorem resolve_layeredRules :
    ∃ events, documentEvents layeredRules = .ok events ∧
      ∃ tree idl index statements resolution,
        documentTree layeredRules = .ok (.ok tree) ∧ Idl.ofTree tree = .ok idl ∧
        ShapeIndex.ofIdl idl = .ok index ∧ idl.HasShapes statements ∧
        resolve layeredRules "a" {} = .ok resolution ∧
        List.Forall₂ (index.HasRules statements) (index.records .structureShape)
          resolution.model.types ∧
        resolution.model.types.map (fun type => type.properties.map Member.rules) =
          [[[.uniqueItems, .maxLength 9, .pattern "x", .minLength 1]],
            [[.uniqueItems, .maxLength 9, .pattern "x", .minLength 1, .required]]] := by
  have computed : (resolve layeredRules "a" {}).toOption.map (fun resolution =>
      resolution.model.types.map fun type => type.properties.map Member.rules) =
        some [[[.uniqueItems, .maxLength 9, .pattern "x", .minLength 1]],
          [[.uniqueItems, .maxLength 9, .pattern "x", .minLength 1, .required]]] := by
    decide +kernel
  obtain ⟨known, found, computed⟩ := Option.map_eq_some_iff.mp computed
  have success := Outcome.eq_ok_of_toOption found
  have some : known.model.types ≠ [] := by
    intro none
    simp [none] at computed
  obtain ⟨events, accepted⟩ := exists_events_of_types success some
  obtain ⟨tree, idl, index, statements, resolution, made, root, indexed, shapes, resolved, rules,
    -⟩ := resolve_rules_of_collected accepted "a" {}
  cases success.symm.trans resolved
  exact ⟨events, accepted, tree, idl, index, statements, known, made, root, indexed, shapes,
    resolved, rules, computed⟩

/-! ## Shapes that share a name -/

/-- The traits in front of the statement that declares the shape. -/
def ShapeRecord.HasOwnTraits (statements : List ShapeStatement) (record : ShapeRecord)
    (traits : List Trait) : Prop :=
  ∃ statement ∈ statements, ∃ part,
    ShapeStatement.shape statement = .ok record.decl ∧
    ShapeStatement.traits statement = .ok part ∧ Trait.ofStatements part = .ok traits

/-- The category of a declared shape, with the constraints in front of it. -/
def ShapeStatement.ownConstraints (statement : ShapeStatement) :
    Except Defect (ShapeCategory × List Constraint) := do
  let category ← ShapeCategory.ofDecl (← ShapeStatement.shape statement)
  let traits ← Trait.ofStatements (← ShapeStatement.traits statement)
  return (category, traits.flatMap Constraint.ofTrait)

/-- A list and a structure of one name, each with a constraint in front of it. -/
def namesakes : String :=
  "namespace a\nstructure S \x7b x: L \x7d\n@uniqueItems\nlist L \x7b member: String \x7d\n" ++
    "@required\nstructure L \x7b\x7d"

/-- The member that refers to the list has the constraint in front of the structure, and
not the one in front of the list. -/
theorem resolve_namesakes :
    ∃ tree idl index statements resolution list own,
      documentTree namesakes = .ok (.ok tree) ∧ Idl.ofTree tree = .ok idl ∧
      ShapeIndex.ofIdl idl = .ok index ∧ idl.HasShapes statements ∧
      resolve namesakes "a" {} = .ok resolution ∧
      index.listRef? "L" = some list ∧ list.HasOwnTraits statements own ∧
      own.flatMap Constraint.ofTrait = [.uniqueItems] ∧
      resolution.model.types.map (fun type =>
          (type.name, type.properties.map fun property => (property.name, property.rules))) =
        [("S", [("x", [.required])]), ("L", [])] := by
  have computed : (resolve namesakes "a" {}).toOption.map (fun resolution =>
      resolution.model.types.map fun type =>
        (type.name, type.properties.map fun property => (property.name, property.rules))) =
        some [("S", [("x", [.required])]), ("L", [])] := by
    decide +kernel
  have written : ((documentTree namesakes).toOption.bind Except.toOption).any (fun tree =>
      (Idl.ofTree tree).toOption.any fun idl =>
      (Idl.shapeSection idl).toOption.any fun part =>
      (ShapeIndex.ofIdl idl).toOption.any fun index =>
        (index.listRef? "L").isSome &&
          (((ShapeSection.statements part).map ShapeStatements.shapes).getD []).all fun statement =>
            (ShapeStatement.ownConstraints statement).toOption.any fun own =>
              own.1 != .list || own.2 == [.uniqueItems]) = true := by
    decide +kernel
  obtain ⟨resolution, success, computed⟩ := Option.map_eq_some_iff.mp computed
  have resolved := Outcome.eq_ok_of_toOption success
  have some : resolution.model.types ≠ [] := by
    intro none
    simp [none] at computed
  obtain ⟨events, accepted⟩ := exists_events_of_types resolved some
  obtain ⟨tree, made, document⟩ := exists_documentTree accepted
  obtain ⟨idl, index, root, indexed, holds⟩ := exists_index_of_isDocument document
  obtain ⟨part, readPart, -⟩ := Outcome.bind_eq_ok_iff.mp indexed
  have shapes : idl.HasShapes _ := ⟨part, readPart, rfl⟩
  simp only [made, root, readPart, indexed, Except.toOption, Option.bind_some, Option.any_some,
    Bool.and_eq_true] at written
  rcases written with ⟨present, each⟩
  obtain ⟨list, found⟩ := Option.isSome_iff_exists.mp present
  have member := ShapeIndex.mem_records_of_find? (ShapeIndex.find?_of_listRef? found)
  obtain ⟨declared, filed⟩ := holds.isDeclaredIn member
  obtain ⟨name, inside⟩ := ShapeIndex.mem_records_iff.mp member
  obtain ⟨statement, isIn, readDecl⟩ :=
    (ShapeIndex.keepsLast_ofIdl indexed shapes).declared _ inside
  -- What is computed of every statement holds of the one that declares the list.
  have own := List.all_eq_true.mp each statement isIn
  have category : ShapeCategory.ofDecl list.decl = .ok .list := by
    rw [← filed]
    exact declared.category
  cases constrained : ShapeStatement.ownConstraints statement with
  | error defect =>
    rw [constrained] at own
    cases own
  | ok constraints =>
    rw [constrained] at own
    have own : (constraints.1 != .list || constraints.2 == [.uniqueItems]) = true := own
    obtain ⟨decl, readDecl', rest⟩ := bind_eq_ok_iff.mp constrained
    cases readDecl.symm.trans readDecl'
    obtain ⟨category', filed', rest⟩ := bind_eq_ok_iff.mp rest
    cases category.symm.trans filed'
    obtain ⟨part', readTraits, rest⟩ := bind_eq_ok_iff.mp rest
    obtain ⟨traits, lowered, rest⟩ := bind_eq_ok_iff.mp rest
    cases rest
    refine ⟨tree, idl, index, _, resolution, list, traits, made, root, indexed, shapes, resolved,
      found, ⟨statement, isIn, part', readDecl, readTraits, lowered⟩, ?_, computed⟩
    simpa using own

end ServiceIdl
