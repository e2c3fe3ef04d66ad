import ServiceIdl.Proofs.Resolve.Integrity
import ServiceIdl.Proofs.Resolve.Members

/-!
# Two spellings of an id

A name of the document can be written bare or behind the namespace of the document
(`Spelling`). Look-ups do not tell the spellings apart (`ShapeIndex.find?_absoluteId`), so neither
does the type of a member that refers to a list or to a simple shape. Any other id is carried
along as it is written, and this shows in the name of the type; and since every id of the
prelude's namespace means a type of the prelude, a document that has this namespace gets
a string for it (`Spelling.IsVerbatim`).

The main theorem compares each member of a document's structures with the one that it would be
in the other spelling, which need not be in the document (`resolve_spellings`).
-/

namespace ServiceIdl

open Outcome (bind_eq_ok_iff)

/-- The id of a name in a namespace. -/
def absoluteId (space name : String) : String := space ++ "#" ++ name

theorem toList_absoluteId (space name : String) :
    (absoluteId space name).toList = space.toList ++ '#' :: name.toList := by
  simp [absoluteId]

theorem numberSign_mem_absoluteId (space name : String) :
    '#' ∈ (absoluteId space name).toList := by
  simp [toList_absoluteId]

/-! ## The tables of the language -/

/-- The namespace of the prelude. -/
def preludeSpace : String := "smithy.api"

/-- What stands before the first number sign is the namespace. -/
theorem eq_of_append_numberSign {space space' name name' : List Char} (bare : '#' ∉ space)
    (bare' : '#' ∉ space') (same : space ++ '#' :: name = space' ++ '#' :: name') :
    space = space' ∧ name = name' := by
  have left : Text.splitAt? '#' (space ++ '#' :: name) = some (space, name) :=
    Text.splitAt?_eq_some_iff.mpr ⟨rfl, bare⟩
  have right : Text.splitAt? '#' (space ++ '#' :: name) = some (space', name') :=
    Text.splitAt?_eq_some_iff.mpr ⟨same, bare'⟩
  rw [left, Option.some.injEq, Prod.mk.injEq] at right
  exact right

/-- Only what is absolute in the prelude is a name of the prelude. -/
theorem withoutPrelude?_absoluteId {space : String} (bare : '#' ∉ space.toList) (name : String) :
    withoutPrelude? (absoluteId space name) =
      if space = preludeSpace then some name else none := by
  have mark : preludeMark.toList = preludeSpace.toList ++ ['#'] := by decide
  unfold withoutPrelude?
  split
  · rename_i same
    have split : (absoluteId space name).toList = preludeMark.toList ++ name.toList := by
      rw [toList_absoluteId, same, mark, List.append_assoc]
      rfl
    rw [Text.dropLead?_eq_some_iff.mpr split]
    simp
  · rename_i other
    cases dropped : Text.dropLead? preludeMark.toList (absoluteId space name).toList with
    | none => rfl
    | some rest =>
      have split := Text.dropLead?_eq_some_iff.mp dropped
      rw [toList_absoluteId, mark, List.append_assoc] at split
      have spaces := (eq_of_append_numberSign bare (by decide) split).1
      exact absurd (String.toList_inj.mp spaces) other

theorem withoutPrelude?_of_not_mem {name : String} (bare : '#' ∉ name.toList) :
    withoutPrelude? name = none := by
  cases dropped : Text.dropLead? preludeMark.toList name.toList with
  | none => simp [withoutPrelude?, dropped]
  | some rest =>
    have split := Text.dropLead?_eq_some_iff.mp dropped
    have present : '#' ∈ preludeMark.toList := by decide
    rw [split] at bare
    exact absurd (List.mem_append_left rest present) bare

namespace Scalar

theorem isKeyword_of_mem {id : String} (absolute : '#' ∈ id.toList) : isKeyword id = false := by
  cases keyword : isKeyword id with
  | false => rfl
  | true =>
    have bare : ∀ word ∈ Rule.simpleTypeWords, '#' ∉ word.toList := by decide
    exact absurd absolute (bare id (List.contains_iff_mem.mp keyword))

theorem ofPreludeName?_of_mem {id : String} (absolute : '#' ∈ id.toList) :
    ofPreludeName? id = none := by
  unfold ofPreludeName?
  split
  case h_13 => rfl
  all_goals exact absurd absolute (by decide)

/-- A name that is no wrapper is none in any namespace. -/
theorem ofWrapper?_absoluteId {space name : String} (bare : '#' ∉ space.toList)
    (bareName : '#' ∉ name.toList) (other : ofWrapper? name = none) :
    ofWrapper? (absoluteId space name) = none := by
  unfold ofWrapper? at other ⊢
  rw [withoutPrelude?_of_not_mem bareName, Option.getD_none] at other
  rw [withoutPrelude?_absoluteId bare]
  split
  · exact other
  · exact ofPreludeName?_of_mem (numberSign_mem_absoluteId space name)

/-- An absolute id is expected to be primitive exactly in the prelude. -/
theorem isExpectedPrimitive_absoluteId {space : String} (bare : '#' ∉ space.toList)
    (name : String) :
    isExpectedPrimitive (absoluteId space name) = decide (space = preludeSpace) := by
  have builtins : ∀ word ∈ preludeBuiltins, '#' ∉ word.toList := by decide
  have unlisted : preludeBuiltins.contains (absoluteId space name) = false := by
    cases listed : preludeBuiltins.contains (absoluteId space name) with
    | false => rfl
    | true =>
      have member := List.contains_iff_mem.mp listed
      exact absurd (numberSign_mem_absoluteId space name) (builtins _ member)
  rw [isExpectedPrimitive, unlisted, withoutPrelude?_absoluteId bare, Bool.or_false]
  split
  · rename_i same
    simp [same]
  · rename_i other
    simp [other]

/-- A name with a meaning of its own in the language: a keyword, a wrapper, or a name that
the prelude could have. -/
def IsReserved (name : String) : Prop :=
  isKeyword name = true ∨ (ofWrapper? name).isSome = true ∨ preludeBuiltins.contains name = true

end Scalar

/-! ## Look-ups -/

/-- The document has this namespace in front of its shapes. -/
def Idl.HasNamespace (idl : Idl) (space : String) : Prop :=
  ∃ shapes statement word,
    Idl.shapeSection idl = .ok shapes ∧ ShapeSection.namespaceStatement shapes = some statement ∧
    NamespaceStatement.name statement = .ok word ∧ word.text = space

namespace ShapeIndex

variable {text : List Char} {index : ShapeIndex} {space name : String}

theorem namespaceName_of_declare {statement : ShapeStatement} {next : ShapeIndex}
    (declared : index.declare statement = .ok next) :
    next.namespaceName = index.namespaceName := by
  obtain ⟨_, -, declared⟩ := bind_eq_ok_iff.mp declared
  obtain ⟨_, -, declared⟩ := bind_eq_ok_iff.mp declared
  obtain ⟨_, -, declared⟩ := bind_eq_ok_iff.mp declared
  obtain ⟨_, -, declared⟩ := bind_eq_ok_iff.mp declared
  obtain ⟨_, -, declared⟩ := bind_eq_ok_iff.mp declared
  cases declared
  rfl

theorem namespaceName_of_ofStatements? {namespaceName : Option String}
    {statements? : Option ShapeStatements}
    (made : ofStatements? namespaceName statements? = .ok index) :
    index.namespaceName = namespaceName := by
  unfold ofStatements? at made
  cases statements? with
  | none =>
    cases made
    rfl
  | some statements =>
    obtain ⟨folded, success, final⟩ := bind_eq_ok_iff.mp made
    cases final
    change folded.namespaceName = namespaceName
    refine @Outcome.foldlM_induction _ _ _ declare
      (fun _ index => index.namespaceName = namespaceName) ?_ [] _ _ _ rfl success
    intro _ index statement next same declared
    exact (namespaceName_of_declare declared).trans same

/-- The namespace of an index is the one that the document has in front of its shapes. -/
theorem namespaceName_eq_some_iff {idl : Idl} (indexed : ShapeIndex.ofIdl idl = .ok index) :
    index.namespaceName = some space ↔ idl.HasNamespace space := by
  obtain ⟨shapes, readShapes, indexed⟩ := bind_eq_ok_iff.mp indexed
  cases spaced : ShapeSection.namespaceStatement shapes with
  | none =>
    rw [spaced] at indexed
    rw [namespaceName_of_ofStatements? indexed]
    constructor
    · intro same
      cases same
    · rintro ⟨shapes', statement, _, readShapes', spaced', -⟩
      cases readShapes.symm.trans readShapes'
      cases spaced.symm.trans spaced'
  | some statement =>
    rw [spaced] at indexed
    obtain ⟨written, read, made⟩ := bind_eq_ok_iff.mp indexed
    obtain ⟨word, readWord, rfl⟩ := Outcome.map_eq_ok_iff.mp read
    rw [namespaceName_of_ofStatements? made, Option.some.injEq]
    constructor
    · rintro rfl
      exact ⟨shapes, statement, word, readShapes, spaced, readWord, rfl⟩
    · rintro ⟨shapes', statement', word', readShapes', spaced', readWord', same⟩
      cases readShapes.symm.trans readShapes'
      cases spaced.symm.trans spaced'
      cases readWord.symm.trans readWord'
      exact same

/-- The namespace of a document has no number sign. -/
theorem numberSign_not_mem_namespaceName {idl : Idl} (part : idl.tree.IsPart text)
    (indexed : ShapeIndex.ofIdl idl = .ok index) (named : index.namespaceName = some space) :
    '#' ∉ space.toList := by
  obtain ⟨shapes, statement, word, readShapes, spaced, readWord, rfl⟩ :=
    (namespaceName_eq_some_iff indexed).mp named
  have partShapes := View.isPart_of_required part readShapes
  have partStatement := View.isPart_of_optional partShapes spaced
  exact numberSign_not_mem_of_namespaceName (View.isPart_of_required partStatement readWord)

/-- In its own namespace an absolute id has its name as local name. -/
theorem localName?_absoluteId (named : index.namespaceName = some space)
    (bare : '#' ∉ space.toList) : index.localName? (absoluteId space name) = some name := by
  have split : Text.splitAt? '#' (absoluteId space name).toList =
      some (space.toList, name.toList) :=
    Text.splitAt?_eq_some_iff.mpr ⟨toList_absoluteId space name, bare⟩
  unfold localName?
  rw [split]
  simp [named]

/-- Look-ups do not tell the spellings apart. -/
theorem find?_absoluteId (named : index.namespaceName = some space) (bare : '#' ∉ space.toList)
    (bareName : '#' ∉ name.toList) (category : ShapeCategory) :
    index.find? category (absoluteId space name) = index.find? category name := by
  unfold find?
  rw [localName?_absoluteId named bare, localName?_of_not_mem bareName]

/-- What a bare name finds has this name. -/
theorem IsOf.name_of_find? (holds : index.IsOf text) (bareName : '#' ∉ name.toList)
    {category : ShapeCategory} {record : ShapeRecord}
    (found : index.find? category name = some record) : record.name = name := by
  unfold find? at found
  rw [localName?_of_not_mem bareName, Option.bind_some] at found
  have key := holds.key _ (Table.mem_entries_of_get? found)
  exact (Prod.mk.inj key).2.symm

/-! ## Types -/

/-- The name is that of a list or of a simple shape of the document. -/
def IsLookedThrough (index : ShapeIndex) (name : String) : Prop :=
  (index.find? .list name).isSome = true ∨ (index.find? .simple name).isSome = true

instance (index : ShapeIndex) (name : String) : Decidable (index.IsLookedThrough name) :=
  inferInstanceAs (Decidable (_ ∨ _))

end ShapeIndex

/-- The two ways to write a name of the document. -/
inductive Spelling where
  /-- Behind the namespace of the document. -/
  | absolute
  /-- The name alone. -/
  | bare

namespace Spelling

/-- The one of the two that this is not. -/
def other : Spelling → Spelling
  | absolute => bare
  | bare => absolute

/-- The id of a name, in a document with this namespace. -/
def id (space name : String) : Spelling → String
  | absolute => absoluteId space name
  | bare => name

/-- The type of an id that is carried along as it is written. -/
def type (space name : String) : Spelling → ResolvedType
  | absolute =>
    if space = preludeSpace then .scalar .string [] else .named (absoluteId space name)
  | bare => .named name

/-- The type of the member is its id as it is written, or a string if that is the id of a type
of the prelude. -/
structure IsVerbatim (space name : String) (spelling : Spelling) (m : Member) : Prop where
  isArray : m.isArray = false
  prelude : spelling = absolute → space = preludeSpace →
    m.isPrimitive = true ∧ m.typeName = some (.scalar .string)
  shape : (spelling = bare ∨ space ≠ preludeSpace) →
    m.isPrimitive = false ∧ m.typeName = some (.shape (spelling.id space name))

variable {space name : String} {spelling : Spelling}

/-- The type of a spelling is no array, and has no traits. -/
theorem type_spec :
    (spelling.type space name).isArray = false ∧ (spelling.type space name).traits = [] := by
  cases spelling with
  | absolute =>
    unfold type
    by_cases prelude : space = preludeSpace
    · rw [if_pos prelude]
      exact ⟨rfl, rfl⟩
    · rw [if_neg prelude]
      exact ⟨rfl, rfl⟩
  | bare => exact ⟨rfl, rfl⟩

/-- A member with the parts of the type of a spelling is verbatim. -/
theorem isVerbatim_of_type {m : Member} (isArray : m.isArray = (spelling.type space name).isArray)
    (isPrimitive : m.isPrimitive = (spelling.type space name).isPrimitive)
    (typeName : m.typeName = (spelling.type space name).typeName) :
    spelling.IsVerbatim space name m := by
  refine ⟨isArray.trans type_spec.1, ?_, ?_⟩
  · intro absolute prelude
    rw [isPrimitive, typeName, absolute, type, if_pos prelude]
    exact ⟨rfl, rfl⟩
  · intro shape
    rw [isPrimitive, typeName]
    cases spelling with
    | absolute =>
      rw [type, if_neg (shape.resolve_left (by simp))]
      exact ⟨rfl, rfl⟩
    | bare => exact ⟨rfl, rfl⟩

end Spelling

namespace ShapeIndex

variable {text : List Char} {index : ShapeIndex} {space name : String}

section Targets

variable (named : index.namespaceName = some space) (bare : '#' ∉ space.toList)
  (bareName : '#' ∉ name.toList) (free : ¬ Scalar.IsReserved name)

include named bare bareName free

/-- A list or a simple shape is the same in both spellings, in any places. -/
theorem resolveTarget_of_isLookedThrough (through : index.IsLookedThrough name)
    (spelling : Spelling) (span span' : Span) :
    index.resolveTarget (spelling.id space name) span =
      index.resolveTarget (spelling.other.id space name) span' := by
  simp only [Scalar.IsReserved, not_or, Bool.not_eq_true, Option.isSome_eq_false_iff,
    Option.isNone_iff_eq_none] at free
  rcases free with ⟨keyword, wrapper, -⟩
  have keyword' := Scalar.isKeyword_of_mem (numberSign_mem_absoluteId space name)
  have wrapper' := Scalar.ofWrapper?_absoluteId bare bareName wrapper
  have same := find?_absoluteId named bare bareName
  have agree (span span' : Span) :
      index.resolveTarget (absoluteId space name) span = index.resolveTarget name span' := by
    unfold resolveTarget listRef? isBuiltin
    simp only [keyword, keyword', wrapper, wrapper', same, Option.isSome_none, Bool.or_self,
      Bool.false_eq_true, ↓reduceIte]
    cases list : index.find? .list name with
    | some record => rfl
    | none =>
      cases simple : index.find? .simple name with
      | none => simp [IsLookedThrough, list, simple] at through
      | some record =>
        simp [resolveTypeRef, typeRef, keyword, keyword', wrapper, wrapper', same, simple]
  cases spelling with
  | absolute => exact agree span span'
  | bare => exact (agree span' span).symm

/-- Any other id is carried along as it is written. -/
theorem resolveTarget_of_not_isLookedThrough (other : ¬ index.IsLookedThrough name)
    (spelling : Spelling) (span : Span) :
    ∃ reports, index.resolveTarget (spelling.id space name) span =
      .ok (spelling.type space name, reports) := by
  simp only [Scalar.IsReserved, not_or, Bool.not_eq_true, Option.isSome_eq_false_iff,
    Option.isNone_iff_eq_none] at free
  rcases free with ⟨keyword, wrapper, unlisted⟩
  simp only [IsLookedThrough, not_or, Bool.not_eq_true, Option.isSome_eq_false_iff,
    Option.isNone_iff_eq_none] at other
  rcases other with ⟨list, simple⟩
  have same := find?_absoluteId named bare bareName
  unfold resolveTarget resolveTypeRef
  cases spelling with
  | absolute =>
    have keyword' := Scalar.isKeyword_of_mem (numberSign_mem_absoluteId space name)
    have wrapper' := Scalar.ofWrapper?_absoluteId bare bareName wrapper
    have expected := Scalar.isExpectedPrimitive_absoluteId bare name
    have noList : index.listRef? (absoluteId space name) = none := by simp [listRef?, same, list]
    simp only [Spelling.id, Spelling.type]
    rw [noList]
    by_cases prelude : space = preludeSpace
    · have ref : index.typeRef (absoluteId space name) =
          .expectedPrimitive (absoluteId space name) := by
        have primitive := expected.trans (decide_eq_true prelude)
        simp [typeRef, keyword', wrapper', same, simple, primitive]
      rw [ref, if_pos prelude]
      exact ⟨_, rfl⟩
    · have ref : index.typeRef (absoluteId space name) = .named (absoluteId space name) := by
        have unexpected := expected.trans (decide_eq_false prelude)
        simp [typeRef, keyword', wrapper', same, simple, unexpected]
      rw [ref, if_neg prelude]
      exact ⟨_, rfl⟩
  | bare =>
    have unexpected : Scalar.isExpectedPrimitive name = false := by
      rw [Scalar.isExpectedPrimitive, withoutPrelude?_of_not_mem bareName, unlisted]
      rfl
    have noList : index.listRef? name = none := by simp [listRef?, list]
    have ref : index.typeRef name = .named name := by
      simp [typeRef, keyword, wrapper, simple, unexpected]
    simp only [Spelling.id, Spelling.type]
    rw [noList, ref]
    exact ⟨_, rfl⟩

end Targets

/-! ## Members -/

/-- How a member with a name in one spelling compares to one with the other: they are the same,
except for types that are carried along as they are written. -/
structure SpelledAlike (index : ShapeIndex) (space name : String) (spelling : Spelling)
    (m other : Member) : Prop where
  isArray : other.isArray = m.isArray
  rules : other.rules = m.rules
  through : index.IsLookedThrough name →
    other.isPrimitive = m.isPrimitive ∧ other.typeName = m.typeName
  verbatim : ¬ index.IsLookedThrough name → spelling.other.IsVerbatim space name other

/-- What a model makes of a member that refers to a name in this spelling, with these traits of
its own. -/
structure ResolvesSpelling (index : ShapeIndex) (lines : LineIndex) (space name : String)
    (spelling : Spelling) (target : MemberTarget) (own : List Trait) (member : ShapeMember)
    (m : Member) : Prop where
  verbatim : ¬ index.IsLookedThrough name → spelling.IsVerbatim space name m
  /-- In the place of the member, there can be one that refers to the name in the other spelling,
  and it comes to the same. -/
  inPlace : ∃ respelled : ShapeMember,
    respelled.span = member.span ∧
    ShapeMember.Declares m.name respelled (spelling.other.id space name) ∧
    ShapeMember.HasTraits respelled (target.inherited ++ own) ∧
    ∀ mixins, ∃ other reports,
      index.resolveMember lines mixins respelled = .ok (other, reports) ∧
      other.name = m.name ∧ other.location = m.location ∧
      index.SpelledAlike space name spelling m other
  /-- Wherever a member refers to the name in the other spelling, taken over or not, and has the
  same constraints, it comes to the same. -/
  anywhere : ∀ shape respelled target' own', index.Takes shape respelled target' →
    target'.id = spelling.other.id space name → ShapeMember.HasTraits respelled own' →
    (target'.inherited ++ own').flatMap Constraint.ofTrait =
      (target.inherited ++ own).flatMap Constraint.ofTrait →
    ∃ other reports,
      index.resolveMember lines (AggregateShape.mixins shape) respelled = .ok (other, reports) ∧
      index.SpelledAlike space name spelling m other

/-- Every member of a structure that refers to the name, in either spelling, is resolved so. The
bare name is the one that a structure has among the types. -/
structure ResolvesSpellings (index : ShapeIndex) (lines : LineIndex) (space name : String)
    (model : ServiceModel) : Prop where
  members : index.EachMember
    (fun shape member m => ∀ (spelling : Spelling) target, index.Takes shape member target →
      target.id = spelling.id space name →
      ∃ own, ShapeMember.HasTraits member own ∧
        index.ResolvesSpelling lines space name spelling target own member m)
    model
  listed : ∀ record, index.find? .structureShape name = some record →
    ∃ type ∈ model.types, type.name = name

section Members

variable {lines : LineIndex} {spelling : Spelling} {word : String} {traits : List Trait}
  {span : Span} {m : Member} {reports : List Report}
  (named : index.namespaceName = some space) (bare : '#' ∉ space.toList)
  (bareName : '#' ∉ name.toList) (free : ¬ Scalar.IsReserved name)
  (success : index.resolveAs lines word (spelling.id space name) traits span = .ok (m, reports))

include named bare bareName free success

/-- A name that is not looked through stays as it is spelled. -/
theorem isVerbatim_of_resolveAs (other : ¬ index.IsLookedThrough name) :
    spelling.IsVerbatim space name m := by
  obtain ⟨type, _, _, typed, final, -⟩ := Reporting.bind_eq_ok_iff.mp success
  obtain ⟨_, known⟩ :=
    resolveTarget_of_not_isLookedThrough named bare bareName free other spelling span
  cases typed.symm.trans known
  cases final
  exact Spelling.isVerbatim_of_type rfl rfl rfl

/-- In the other spelling, what comes of a member is the same in any place. -/
theorem exists_spelledAlike {others : List Trait}
    (same : others.flatMap Constraint.ofTrait = traits.flatMap Constraint.ofTrait)
    (word' : String) (span' : Span) :
    ∃ other reports,
      index.resolveAs lines word' (spelling.other.id space name) others span' =
        .ok (other, reports) ∧
      other.name = word' ∧ other.location = lines.locate span' ∧
      index.SpelledAlike space name spelling m other := by
  obtain ⟨type, earlier, later, typed, final, -⟩ := Reporting.bind_eq_ok_iff.mp success
  cases final
  by_cases through : index.IsLookedThrough name
  · rw [resolveTarget_of_isLookedThrough named bare bareName free through spelling span
      span'] at typed
    refine ⟨_, _, Reporting.bind_eq_ok_iff.mpr ⟨type, earlier, _, typed, rfl, rfl⟩, rfl, rfl, rfl,
      Constraint.ofTraits_append_congr type.traits same, fun _ => ⟨rfl, rfl⟩,
      fun other => absurd through other⟩
  · obtain ⟨_, known⟩ :=
      resolveTarget_of_not_isLookedThrough named bare bareName free through spelling span
    obtain ⟨reports', typed'⟩ :=
      resolveTarget_of_not_isLookedThrough named bare bareName free through spelling.other span'
    cases typed.symm.trans known
    refine ⟨_, _, Reporting.bind_eq_ok_iff.mpr ⟨_, reports', _, typed', rfl, rfl⟩, rfl, rfl,
      Spelling.type_spec.1.trans Spelling.type_spec.1.symm, ?_, fun known => absurd known through,
      fun _ => Spelling.isVerbatim_of_type rfl rfl rfl⟩
    change Constraint.ofTraits (_ ++ others) = Constraint.ofTraits (_ ++ traits)
    rw [Spelling.type_spec.2, Spelling.type_spec.2]
    exact Constraint.ofTraits_append_congr [] same

end Members

/-- A member that takes a target in one of the spellings resolves as the spelling says, in its own
place and in every other member's. -/
theorem resolvesSpelling_of_takes (holds : index.IsOf text) {lines : LineIndex}
    (named : index.namespaceName = some space) (bare : '#' ∉ space.toList)
    (bareName : '#' ∉ name.toList) (free : ¬ Scalar.IsReserved name) {spelling : Spelling}
    {shape : AggregateShape} {member : ShapeMember} {target : MemberTarget} {own : List Trait}
    (takes : index.Takes shape member target) (same : target.id = spelling.id space name)
    (has : ShapeMember.HasTraits member own) {m : Member} {reports : List Report}
    (success : index.resolveMember lines (AggregateShape.mixins shape) member =
      .ok (m, reports)) :
    index.ResolvesSpelling lines space name spelling target own member m := by
  obtain ⟨word, resolved⟩ := takes.resolveMember holds lines has
  rw [resolved, same] at success
  have place : m.name = word ∧ m.location = lines.locate member.span := by
    obtain ⟨_, _, _, -, final, -⟩ := Reporting.bind_eq_ok_iff.mp success
    cases final
    exact ⟨rfl, rfl⟩
  obtain ⟨rfl, location⟩ := place
  refine ⟨isVerbatim_of_resolveAs named bare bareName free success, ?_, ?_⟩
  · obtain ⟨respelled, place, declares, has'⟩ :=
      takes.exists_written has m.name (spelling.other.id space name)
    refine ⟨respelled, place, declares, has', fun mixins => ?_⟩
    rw [resolveMember_of_declares declares has' mixins, location, place]
    exact exists_spelledAlike named bare bareName free success rfl m.name member.span
  · intro shape' respelled target' own' takes' same' has' constraints
    obtain ⟨word', resolved'⟩ := takes'.resolveMember holds lines has'
    rw [resolved', same']
    obtain ⟨other, reports', success', -, -, alike⟩ :=
      exists_spelledAlike named bare bareName free success constraints word' respelled.span
    exact ⟨other, reports', success', alike⟩

end ShapeIndex

/-! ## Documents -/

/-- A member of a structure whose target is a name of the document's namespace is resolved alike
in both spellings, except for the type of a name that is neither a list nor a simple shape of the
document, which is the id as it is written. -/
theorem resolve_spellings {text : String} {events : List Event}
    (accepted : documentEvents text = .ok events) (path : String) (options : Options) :
    ∃ tree idl index resolution,
      documentTree text = .ok (.ok tree) ∧ Idl.ofTree tree = .ok idl ∧
      ShapeIndex.ofIdl idl = .ok index ∧ resolve text path options = .ok resolution ∧
      ∀ space name, idl.HasNamespace space → '#' ∉ name.toList → ¬ Scalar.IsReserved name →
        index.ResolvesSpellings (.ofText text) space name resolution.model := by
  obtain ⟨tree, idl, index, model, reports, made, root, indexed, document, holds, -, modelled, -,
    resolved⟩ := exists_findings_of_accepted accepted path options
  refine ⟨tree, idl, index, _, made, root, indexed, resolved, ?_⟩
  intro space name spaced bareName free
  have named := (ShapeIndex.namespaceName_eq_some_iff indexed).mpr spaced
  have bare := ShapeIndex.numberSign_not_mem_namespaceName document.isPart indexed named
  constructor
  · refine ShapeIndex.eachMember_of_resolveModel holds ?_ modelled
    intro shape member m _ has success _ spelling target takes same
    obtain ⟨own, hasOwn⟩ := ShapeMember.exists_hasTraits (has.isPart holds)
    exact ⟨own, hasOwn, ShapeIndex.resolvesSpelling_of_takes holds named bare bareName free takes
      same hasOwn success⟩
  · intro record found
    obtain ⟨type, isIn, same, -⟩ :=
      ShapeIndex.exists_type modelled (ShapeIndex.mem_records_of_find? found)
    exact ⟨type, isIn, same.trans (holds.name_of_find? bareName found)⟩

/-- A structure and a list, each of which is referred to in one of the spellings only, once by a
member that is taken over. -/
def oneSpelling : String :=
  "namespace a\nstructure M \x7b @required x: a#T \x7d\nstructure S with [M] \x7b $x l: L \x7d\n" ++
    "structure T \x7b\x7d\nlist L \x7b member: String \x7d"

/-- The structure keeps the spelling of both of its members, one of which is taken over, and the
list is looked through. -/
theorem resolve_spellings_oneSpelling :
    ∃ events, documentEvents oneSpelling = .ok events ∧
      ∃ tree idl index resolution,
        documentTree oneSpelling = .ok (.ok tree) ∧ Idl.ofTree tree = .ok idl ∧
        ShapeIndex.ofIdl idl = .ok index ∧ resolve oneSpelling "a" {} = .ok resolution ∧
        index.ResolvesSpellings (.ofText oneSpelling) "a" "T" resolution.model ∧
        index.ResolvesSpellings (.ofText oneSpelling) "a" "L" resolution.model ∧
        ¬ index.IsLookedThrough "T" ∧ index.IsLookedThrough "L" ∧
        resolution.model.types.map (fun type =>
            (type.name, type.properties.map fun m => (m.name, m.isArray, m.typeName))) =
          [("M", [("x", false, some (.shape "a#T"))]),
            ("S", [("x", false, some (.shape "a#T")), ("l", true, some (.scalar .string))]),
            ("T", [])] := by
  have computed : (resolve oneSpelling "a" {}).toOption.any (fun resolution =>
      resolution.model.types.map (fun type =>
          (type.name, type.properties.map fun m => (m.name, m.isArray, m.typeName))) ==
        [("M", [("x", false, some (.shape "a#T"))]),
          ("S", [("x", false, some (.shape "a#T")), ("l", true, some (.scalar .string))]),
          ("T", [])]) = true := by
    decide +kernel
  have declared : (indexed? oneSpelling).any (fun (_, index) =>
      decide (index.namespaceName = some "a" ∧ ¬ index.IsLookedThrough "T" ∧
        index.IsLookedThrough "L")) = true := by
    decide +kernel
  obtain ⟨known, success, types⟩ := (Option.any_eq_true _ _).mp computed
  obtain ⟨⟨idl, index⟩, found, declared⟩ := (Option.any_eq_true _ _).mp declared
  obtain ⟨named, other, through⟩ := of_decide_eq_true declared
  obtain ⟨events, tree, accepted, made, root, indexed, -⟩ := exists_events_of_indexed? found
  obtain ⟨tree', idl', index', resolution, made', root', indexed', resolved, spellings⟩ :=
    resolve_spellings accepted "a" {}
  cases made.symm.trans made'
  cases root.symm.trans root'
  cases indexed.symm.trans indexed'
  cases (Outcome.eq_ok_of_toOption success).symm.trans resolved
  have spaced := (ShapeIndex.namespaceName_eq_some_iff indexed).mp named
  have free : ¬ Scalar.IsReserved "T" ∧ ¬ Scalar.IsReserved "L" := by
    simp only [Scalar.IsReserved]
    decide
  refine ⟨events, accepted, tree, idl, index, known, made, root, indexed, resolved,
    spellings "a" "T" spaced (by decide) free.1, spellings "a" "L" spaced (by decide) free.2,
    other, through, eq_of_beq types⟩

/-- A structure that refers to another one in both spellings. -/
def bothSpellings : String :=
  "namespace a\nstructure S \x7b x: a#T, y: T \x7d\nstructure T \x7b\x7d"

/-- Both members are resolved alike, but they have different names of types, and only the
bare one is among the names of the types. -/
theorem resolve_bothSpellings :
    ∃ resolution, resolve bothSpellings "a" {} = .ok resolution ∧
      resolution.model.types.map (fun type =>
          (type.name, type.properties.map fun property => (property.name, property.typeName))) =
        [("S", [("x", some (.shape "a#T")), ("y", some (.shape "T"))]), ("T", [])] := by
  have computed : (resolve bothSpellings "a" {}).toOption.map (fun resolution =>
      resolution.model.types.map fun type =>
        (type.name, type.properties.map fun property => (property.name, property.typeName))) =
        some [("S", [("x", some (.shape "a#T")), ("y", some (.shape "T"))]), ("T", [])] := by
    decide +kernel
  obtain ⟨resolution, success, types⟩ := Option.map_eq_some_iff.mp computed
  exact ⟨resolution, Outcome.eq_ok_of_toOption success, types⟩

end ServiceIdl
