import ServiceIdl.Proofs.Grammar.Alphabet
import ServiceIdl.Proofs.Resolve.Targets
import ServiceIdl.Proofs.Shape.Indexed

/-!
# The traits of a name

A statement writes its shape under category and name, and its traits under the name
alone (`ShapeIndex.declares_of_declare`). So an index keeps one list of traits for each
name, whatever category the name is declared in: that of the last statement that declares
it (`ShapeIndex.hasLastTraits`). A shape has the traits written in front of it unless a
later shape of another category takes its name.
-/

namespace ServiceIdl

open Outcome (bind_eq_ok_iff)

/-! ## Writing to tables -/

namespace Table

variable {κ α : Type} [DecidableEq κ]

theorem get?_insert_self (table : Table κ α) (key : κ) (value : α) :
    (table.insert key value).get? key = some value :=
  get?_alter_self table key _

theorem get?_insert_of_ne {key other : κ} (different : other ≠ key) (table : Table κ α)
    (value : α) : (table.insert key value).get? other = table.get? other :=
  get?_alter_of_ne different table _

end Table

/-! ## What statements declare -/

/-- The statement declares a shape of this name, with these traits in front of it. -/
def ShapeStatement.Declares (name : String) (statement : ShapeStatement)
    (traits : List Trait) : Prop :=
  ∃ decl identifier part,
    ShapeStatement.shape statement = .ok decl ∧ ShapeDecl.name decl = .ok identifier ∧
    identifier.text = name ∧ ShapeStatement.traits statement = .ok part ∧
    Trait.ofStatements part = .ok traits

/-- The last of the statements that declares the name has these traits. -/
def HasLastTraits (statements : List ShapeStatement) (name : String)
    (traits : List Trait) : Prop :=
  First (ShapeStatement.Declares name) statements.reverse traits

/-- The shape statements of the document, in its order. -/
def Idl.HasShapes (idl : Idl) (statements : List ShapeStatement) : Prop :=
  ∃ part, Idl.shapeSection idl = .ok part ∧
    ((ShapeSection.statements part).map ShapeStatements.shapes).getD [] = statements

/-- The statement declares the shape, with these traits in front of it. -/
structure ShapeStatement.DeclaresShape (statement : ShapeStatement) (record : ShapeRecord)
    (traits : List Trait) : Prop where
  shape : ShapeStatement.shape statement = .ok record.decl
  category : ShapeCategory.ofDecl record.decl = .ok record.category
  traits : ShapeStatement.Declares record.name statement traits

/-- A statement declares one name, with one list of traits. -/
theorem ShapeStatement.Declares.unique {statement : ShapeStatement} {name other : String}
    {traits others : List Trait} (left : ShapeStatement.Declares name statement traits)
    (right : ShapeStatement.Declares other statement others) : name = other ∧ traits = others := by
  rcases left with ⟨_, _, _, readDecl, readName, named, readPart, readTraits⟩
  rcases right with ⟨_, _, _, readDecl', readName', named', readPart', readTraits'⟩
  cases readDecl.symm.trans readDecl'
  cases readName.symm.trans readName'
  cases readPart.symm.trans readPart'
  exact ⟨named.symm.trans named', Except.ok.inj (readTraits.symm.trans readTraits')⟩

namespace ShapeIndex

variable {text : List Char} {index : ShapeIndex}

/-! ## Names of a document -/

/-- An id without a number sign is the bare name of itself. -/
theorem localName?_of_not_mem {id : String} (bare : '#' ∉ id.toList) :
    index.localName? id = some id := by
  unfold localName?
  rw [Text.splitAt?_eq_none_iff.mpr bare]

/-- The names of declared shapes are bare. -/
theorem IsOf.numberSign_not_mem (holds : index.IsOf text) {category : ShapeCategory}
    {record : ShapeRecord} (member : record ∈ index.records category) :
    '#' ∉ record.name.toList := by
  have declared := (holds.isDeclaredIn member).1
  obtain ⟨identifier, readName, named⟩ := declared.name
  rw [← named]
  exact numberSign_not_mem_of_identifier (View.isPart_of_required declared.part readName)

/-! ## What the index keeps for a name -/

/-- All that a statement does to an index. -/
theorem declares_of_declare {statement : ShapeStatement} {next : ShapeIndex}
    (declared : index.declare statement = .ok next) :
    ∃ record traits, ShapeStatement.DeclaresShape statement record traits ∧
      next = { index with
        traits := index.traits.insert record.name traits
        shapes := index.shapes.insert (record.category, record.name) record } := by
  obtain ⟨decl, readDecl, declared⟩ := bind_eq_ok_iff.mp declared
  obtain ⟨identifier, readName, declared⟩ := bind_eq_ok_iff.mp declared
  obtain ⟨category, filed, declared⟩ := bind_eq_ok_iff.mp declared
  obtain ⟨part, readPart, declared⟩ := bind_eq_ok_iff.mp declared
  obtain ⟨own, readTraits, declared⟩ := bind_eq_ok_iff.mp declared
  cases declared
  exact ⟨⟨category, identifier.text, decl⟩, own,
    ⟨readDecl, filed, decl, identifier, part, readDecl, readName, rfl, readPart, readTraits⟩, rfl⟩

/-- The index of the statements `seen` has for each name the traits of its last
declaration, and shapes that the statements declare, under names that have traits. -/
structure KeepsLast (seen : List ShapeStatement) (index : ShapeIndex) : Prop where
  traits : ∀ name traits,
    HasLastTraits seen name traits ↔ index.traits.get? name = some traits
  named : ∀ entry ∈ index.shapes.entries,
    ∃ traits, index.traits.get? entry.2.name = some traits
  declared : ∀ entry ∈ index.shapes.entries,
    ∃ statement ∈ seen, ShapeStatement.shape statement = .ok entry.2.decl

theorem keepsLast_empty (namespaceName : Option String) :
    KeepsLast [] (ShapeIndex.empty namespaceName) := by
  refine ⟨?_, by simp [ShapeIndex.empty, Table.empty], by simp [ShapeIndex.empty, Table.empty]⟩
  intro name traits
  constructor
  · intro last
    cases last
  · intro same
    cases same

/-- A declaration replaces the traits of its name, whatever category had it before. -/
theorem KeepsLast.declare {seen : List ShapeStatement} {statement : ShapeStatement}
    {next : ShapeIndex} (keeps : KeepsLast seen index)
    (declared : index.declare statement = .ok next) : KeepsLast (seen ++ [statement]) next := by
  obtain ⟨record, own, declares, rfl⟩ := declares_of_declare declared
  refine ⟨?_, ?_, ?_⟩
  · intro name traits
    unfold HasLastTraits
    rw [List.reverse_append, List.reverse_singleton, List.singleton_append]
    by_cases same : record.name = name
    · subst same
      rw [First.cons_iff_of_holds declares.traits, Table.get?_insert_self, Option.some.injEq]
      constructor
      · exact fun declares' => (declares.traits.unique declares').2
      · rintro rfl
        exact declares.traits
    · have nothing : ∀ others, ¬ ShapeStatement.Declares name statement others :=
        fun others declares' => same (declares.traits.unique declares').1
      rw [First.cons_iff_of_forall_not nothing, Table.get?_insert_of_ne (Ne.symm same)]
      exact keeps.traits name traits
  · intro entry member
    by_cases same : entry.2.name = record.name
    · rw [same, Table.get?_insert_self]
      exact ⟨own, rfl⟩
    · rw [Table.get?_insert_of_ne same]
      rcases Table.mem_entries_insert member with old | rfl
      · exact keeps.named entry old
      · exact absurd rfl same
  · intro entry member
    rcases Table.mem_entries_insert member with old | rfl
    · obtain ⟨earlier, inside, read⟩ := keeps.declared entry old
      exact ⟨earlier, List.mem_append_left _ inside, read⟩
    · exact ⟨statement, by simp, declares.shape⟩

/-- What has an index has shape statements. -/
theorem exists_hasShapes {idl : Idl} (indexed : ShapeIndex.ofIdl idl = .ok index) :
    ∃ statements, idl.HasShapes statements := by
  obtain ⟨part, readPart, -⟩ := bind_eq_ok_iff.mp indexed
  exact ⟨_, part, readPart, rfl⟩

/-- The index of a document is that of its statements, in its namespace. -/
theorem exists_ofStatements?_of_ofIdl {idl : Idl} (indexed : ShapeIndex.ofIdl idl = .ok index) :
    ∃ part namespaceName, Idl.shapeSection idl = .ok part ∧
      ofStatements? namespaceName (ShapeSection.statements part) = .ok index := by
  obtain ⟨part, readPart, indexed⟩ := bind_eq_ok_iff.mp indexed
  cases spaced : ShapeSection.namespaceStatement part with
  | none =>
    rw [spaced] at indexed
    exact ⟨part, none, readPart, indexed⟩
  | some statement =>
    rw [spaced] at indexed
    obtain ⟨namespaceName, -, rest⟩ := bind_eq_ok_iff.mp indexed
    exact ⟨part, namespaceName, readPart, rest⟩

/-- The index of a document is filled by its statements in turn. -/
theorem exists_foldlM_of_ofIdl {idl : Idl} {statements : List ShapeStatement}
    (indexed : ShapeIndex.ofIdl idl = .ok index) (shapes : idl.HasShapes statements) :
    ∃ namespaceName filled,
      statements.foldlM ShapeIndex.declare (.empty namespaceName) = .ok filled ∧
      index = { filled with applies := index.applies } := by
  rcases shapes with ⟨part, readPart, rfl⟩
  obtain ⟨part', namespaceName, readPart', indexed⟩ := exists_ofStatements?_of_ofIdl indexed
  cases readPart.symm.trans readPart'
  refine ⟨namespaceName, ?_⟩
  unfold ofStatements? at indexed
  cases written : ShapeSection.statements part with
  | none =>
    rw [written] at indexed
    cases indexed
    exact ⟨_, rfl, rfl⟩
  | some section_ =>
    rw [written] at indexed
    obtain ⟨filled, success, indexed⟩ := bind_eq_ok_iff.mp indexed
    cases indexed
    exact ⟨filled, success, rfl⟩

/-- The index of a document has what its statements say. -/
theorem keepsLast_ofIdl {idl : Idl} {statements : List ShapeStatement}
    (indexed : ShapeIndex.ofIdl idl = .ok index) (shapes : idl.HasShapes statements) :
    KeepsLast statements index := by
  obtain ⟨namespaceName, filled, folded, same⟩ := exists_foldlM_of_ofIdl indexed shapes
  have keeps := Outcome.foldlM_induction KeepsLast
    (fun seen index statement next keeps declared => keeps.declare declared)
    (keepsLast_empty namespaceName) folded
  rw [same]
  exact ⟨keeps.traits, keeps.named, keeps.declared⟩

/-- The traits of a declared shape are those of the last statement with its name. -/
theorem hasLastTraits (holds : index.IsOf text) {statements : List ShapeStatement}
    (keeps : KeepsLast statements index) {category : ShapeCategory} {record : ShapeRecord}
    (member : record ∈ index.records category) :
    HasLastTraits statements record.name (index.traitsOf record.name) := by
  obtain ⟨name, inside⟩ := mem_records_iff.mp member
  obtain ⟨traits, kept⟩ := keeps.named _ inside
  have found : index.traitsOf record.name = traits := by
    unfold traitsOf
    rw [localName?_of_not_mem (holds.numberSign_not_mem member), Option.bind_some, kept]
    rfl
  rw [found]
  exact (keeps.traits _ _).mpr kept

end ShapeIndex

end ServiceIdl
