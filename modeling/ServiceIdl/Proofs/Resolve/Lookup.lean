import Mathlib.Data.Finset.Card
import ServiceIdl.Proofs.Resolve.Listings
import ServiceIdl.Proofs.Resolve.Rules
import ServiceIdl.Proofs.Shape.Keyword

/-!
# What an index finds

An index is made of statements one after the other, each of which declares a shape under a key: a
category and a name. A look-up in a category finds the last shape that is declared under the key,
if the id is its name, bare or behind the namespace of the document; a look-up without a category
asks all of them in turn. A category lists its shapes in the order of the first declarations, and
there are as many shapes as keys (`ShapeIndex.Files`). Since no name has a number sign, each id
has to do with one name at most, and ids of other namespaces are never found.
-/

namespace ServiceIdl

variable {text : List Char} {index : ShapeIndex} {statements : List ShapeStatement}
  {keys : List (ShapeCategory × String)}

/-- The statement begins with a word of the category, and it declares the name. -/
def ShapeStatement.IsUnder (statement : ShapeStatement) (key : ShapeCategory × String) : Prop :=
  ∃ keyword ∈ key.1.keywords, ShapeStatement.head statement = .ok (keyword, key.2)

/-- The keyword and the name of a statement tell its key. -/
theorem ShapeStatement.HasKey.isUnder {statement : ShapeStatement}
    {key : ShapeCategory × String} (has : ShapeStatement.HasKey statement key)
    (part : statement.tree.IsPart text) : ShapeStatement.IsUnder statement key := by
  obtain ⟨record, rfl, traits, declares⟩ := has
  exact declares.exists_head part

namespace ShapeIndex

/-- The index has the shapes that the statements declare under these keys. -/
structure Files (index : ShapeIndex) (statements : List ShapeStatement)
    (keys : List (ShapeCategory × String)) : Prop where
  bare : ∀ key ∈ keys, '#' ∉ key.2.toList
  present : ∀ category id, (∃ record, index.find? category id = some record) ↔
    ∃ name, (category, name) ∈ keys ∧ index.Denotes id name
  /-- What is found is the last declaration of the name in the category. -/
  found : ∀ category id record, index.find? category id = some record →
    record.category = category ∧ index.Denotes id record.name ∧
      IsLastDeclared statements category.keywords record.name record.decl
  lookup : ∀ id record, index.lookup? id = some record ↔
    First (fun category record => index.find? category id = some record) ShapeCategory.all record
  foreign : ∀ space name, '#' ∉ space.toList → index.namespaceName ≠ some space →
    (∀ category, index.find? category (absoluteId space name) = none) ∧
      index.lookup? (absoluteId space name) = none
  listed : ∀ category, ∀ record ∈ index.records category,
    record.category = category ∧ index.find? category record.name = some record
  order : ∀ category, IsFirstOccurrences ((index.records category).map ShapeRecord.name)
    ((keys.filter fun key => key.1 = category).map Prod.snd)
  size : index.size = keys.toFinset.card

/-- Nothing is found in a namespace other than that of the document. -/
theorem find?_absoluteId_of_ne {space : String} (bare : '#' ∉ space.toList)
    (other : index.namespaceName ≠ some space) (category : ShapeCategory) (name : String) :
    index.find? category (absoluteId space name) = none := by
  have split : Text.splitAt? '#' (absoluteId space name).toList =
      some (space.toList, name.toList) :=
    Text.splitAt?_eq_some_iff.mpr ⟨toList_absoluteId space name, bare⟩
  unfold find? localName?
  rw [split]
  simp [other]

/-- The names under the keys of a category. -/
theorem filterMap_nameIn (category : ShapeCategory) (keys : List (ShapeCategory × String)) :
    keys.filterMap (nameIn category) = (keys.filter fun key => key.1 = category).map Prod.snd := by
  rw [← List.filterMap_eq_map, List.filterMap_filter]
  refine List.filterMap_congr fun key _ => ?_
  simp [nameIn]

/-- An index has as many shapes as there are distinct keys. -/
theorem size_eq_card (distinct : index.shapes.keys.Nodup)
    (kept : index.shapes.keys = keys.eraseDups) : index.size = keys.toFinset.card := by
  have same : index.shapes.keys.toFinset = keys.toFinset := by
    ext key
    rw [kept, List.mem_toFinset, List.mem_toFinset, List.mem_eraseDups]
  calc index.size = index.shapes.keys.length := (List.length_map Prod.fst).symm
    _ = index.shapes.keys.toFinset.card := (List.toFinset_card_of_nodup distinct).symm
    _ = keys.toFinset.card := by rw [same]

/-- What an index files of the statements of a document. -/
theorem files (holds : index.FindsByName text) (keeps : KeepsLastShape statements index)
    (kept : index.shapes.keys = keys.eraseDups)
    (parts : ∀ statement ∈ statements, statement.tree.IsPart text)
    (each : ∀ statement ∈ statements, ∃ record traits,
      ShapeStatement.DeclaresShape statement record traits) :
    index.Files statements keys := by
  have names (category : ShapeCategory) : IsFirstOccurrences
      ((index.records category).map ShapeRecord.name)
      ((keys.filter fun key => key.1 = category).map Prod.snd) := by
    rw [names_eq_eraseDups holds.toIsOf kept category, filterMap_nameIn]
    exact isFirstOccurrences_eraseDups _
  have named {category : ShapeCategory} {name : String} : (category, name) ∈ keys ↔
      ∃ record ∈ index.records category, record.name = name := by
    rw [← List.mem_map, (names category).mem_iff]
    simp
  refine ⟨?_, ?_, ?_, fun id record => First.iff_findSome?.symm, ?_, ?_, names,
    size_eq_card holds.distinct kept⟩
  · rintro ⟨category, name⟩ member
    obtain ⟨record, isIn, rfl⟩ := named.mp member
    exact holds.numberSign_not_mem isIn
  · intro category id
    simp only [find?_eq_some_iff holds, named]
    constructor
    · rintro ⟨record, isIn, denotes⟩
      exact ⟨record.name, ⟨record, isIn, rfl⟩, denotes⟩
    · rintro ⟨_, ⟨record, isIn, rfl⟩, denotes⟩
      exact ⟨record, isIn, denotes⟩
  · intro category id record found
    obtain ⟨isIn, denotes⟩ := (find?_eq_some_iff holds).mp found
    have filed := (holds.isDeclaredIn isIn).2
    have last := keeps.hasLastShape holds.toIsOf isIn
    rw [filed] at last
    exact ⟨filed, denotes, last.isLastDeclared parts each⟩
  · intro space name bare other
    refine ⟨fun category => find?_absoluteId_of_ne bare other category name, ?_⟩
    exact List.findSome?_eq_none_iff.mpr fun category _ =>
      find?_absoluteId_of_ne bare other category name
  · intro category record isIn
    exact ⟨(holds.isDeclaredIn isIn).2, (find?_eq_some_iff holds).mpr ⟨isIn, .inl rfl⟩⟩

end ShapeIndex

/-- An accepted text has an index, which finds the shapes of its statements. -/
theorem documentTree_files {text : String} {events : List Event}
    (accepted : documentEvents text = .ok events) :
    ∃ tree idl index statements keys,
      documentTree text = .ok (.ok tree) ∧ Idl.ofTree tree = .ok idl ∧
      ShapeIndex.ofIdl idl = .ok index ∧ idl.HasShapes statements ∧
      (∀ space, index.namespaceName = some space ↔ idl.HasNamespace space) ∧
      List.Forall₂ ShapeStatement.IsUnder statements keys ∧ index.Files statements keys := by
  obtain ⟨tree, made, document⟩ := exists_documentTree accepted
  obtain ⟨idl, index, root, indexed, holds⟩ := exists_index_of_isDocument document
  obtain ⟨statements, shapes⟩ := ShapeIndex.exists_hasShapes indexed
  rw [← Idl.ofTree_eq_ok_iff.mp root] at document
  have parts := shapes.isPart document.isPart
  obtain ⟨keys, each, kept⟩ := ShapeIndex.keepsArrival_ofIdl indexed shapes
  have files := ShapeIndex.files (ShapeIndex.findsByName_ofIdl document holds indexed)
    (ShapeIndex.keepsLastShape_ofIdl indexed shapes) kept parts
    (ShapeIndex.exists_declaresShape indexed shapes)
  refine ⟨tree, idl, index, statements, keys, made, root, indexed, shapes,
    fun _ => ShapeIndex.namespaceName_eq_some_iff indexed, ?_, files⟩
  exact ((List.forall₂_and_left _ _).mpr ⟨parts, each⟩).imp fun _ _ has => has.2.isUnder has.1

/-- A name that is declared twice in one category, and one that is declared in two. -/
def declaredTwice : String :=
  "namespace a.b\nstructure S \x7b\x7d\nstructure T \x7b\x7d\nstring T\n" ++
    "structure S \x7b m: T \x7d"

/-- Of four declarations three shapes are kept, and the look-ups find the last structure and the
simple shape. -/
theorem documentTree_files_declaredTwice :
    ∃ tree idl index statements keys, documentTree declaredTwice = .ok (.ok tree) ∧
      Idl.ofTree tree = .ok idl ∧ ShapeIndex.ofIdl idl = .ok index ∧
      List.Forall₂ ShapeStatement.IsUnder statements keys ∧ index.Files statements keys ∧
      index.size = 3 ∧
      (∃ record, index.find? .structureShape "a.b#S" = some record ∧
        IsLastDeclared statements ["structure"] record.name record.decl) ∧
      (index.lookup? "T").map ShapeRecord.category = some .simple ∧
      index.lookup? (absoluteId "a" "S") = none := by
  have computed : (indexed? declaredTwice).map (fun (_, index) =>
      (index.size, (index.find? .structureShape "a.b#S").isSome,
        (index.lookup? "T").map ShapeRecord.category, index.namespaceName)) =
      some (3, true, some .simple, some "a.b") := by decide +kernel
  obtain ⟨⟨idl, index⟩, found, facts⟩ := Option.map_eq_some_iff.mp computed
  simp only [Prod.mk.injEq] at facts
  obtain ⟨size, some, looked, named⟩ := facts
  obtain ⟨record, found'⟩ := Option.isSome_iff_exists.mp some
  obtain ⟨events, tree, accepted, made, root, indexed, -⟩ := exists_events_of_indexed? found
  obtain ⟨tree', idl', index', statements, keys, made', root', indexed', -, -, each, files⟩ :=
    documentTree_files accepted
  cases made.symm.trans made'
  cases root.symm.trans root'
  cases indexed.symm.trans indexed'
  have other : index.namespaceName ≠ Option.some "a" := by
    rw [named]
    decide
  exact ⟨tree, idl, index, statements, keys, made, root, indexed, each, files, size,
    ⟨record, found', (files.found _ _ _ found').2.2⟩, looked,
    (files.foreign "a" "S" (by decide) other).2⟩

end ServiceIdl
