import ServiceIdl.Proofs.Shape.Readable

/-!
# Indexes of documents

An index holds parts of its document and nothing else, each shape under the category
and the name that its declaration has (`ShapeIndex.IsOf`). Declaring a shape keeps
this, so the index of a document has it (`ShapeIndex.gives_ofIdl`).
-/

namespace ServiceIdl

open Outcome (Gives Succeeds)

/-- The last trait with an id is one of the traits. -/
theorem Trait.mem_of_find? {traits : List Trait} {id : String} {t : Trait}
    (found : Trait.find? traits id = some t) : t ∈ traits :=
  List.mem_reverse.mp (List.mem_of_find?_eq_some found)

/-! ## What a declaration is filed under -/

namespace ShapeCategory

variable {text : List Char} {decl : ShapeDecl}

theorem succeeds_ofDecl (part : decl.tree.IsPart text) :
    Succeeds (ShapeCategory.ofDecl decl) := by
  rw [← ShapeDecl.tree_form] at part
  unfold ShapeCategory.ofDecl
  cases form : ShapeDecl.form decl with
  | simple | enum | operation => exact .ok trivial
  | aggregate shape =>
    rw [form] at part
    exact (View.gives_required part (by decide)).map fun _ _ => trivial
  | entity shape =>
    rw [form] at part
    exact (View.gives_required part (by decide)).map fun _ _ => trivial

/-- The category of a declaration says what form it has. -/
def IsOfForm : ShapeCategory → ShapeDecl.Form → Prop
  | .simple, .simple _ | .enum, .enum _ | .operation, .operation _ => True
  | .list, .aggregate _ | .map, .aggregate _ | .union, .aggregate _ => True
  | .structureShape, .aggregate _ => True
  | .service, .entity _ | .resource, .entity _ => True
  | _, _ => False

theorem isOfForm_ofDecl {category : ShapeCategory}
    (filed : ShapeCategory.ofDecl decl = .ok category) :
    category.IsOfForm (ShapeDecl.form decl) := by
  unfold ShapeCategory.ofDecl at filed
  cases form : ShapeDecl.form decl with
  | simple | enum | operation =>
    rw [form] at filed
    cases filed
    exact trivial
  | aggregate shape =>
    rw [form] at filed
    obtain ⟨name, -, rfl⟩ := Outcome.map_eq_ok_iff.mp filed
    unfold ofAggregateName
    split <;> exact trivial
  | entity shape =>
    rw [form] at filed
    obtain ⟨name, -, rfl⟩ := Outcome.map_eq_ok_iff.mp filed
    unfold ofEntityName
    split <;> exact trivial

end ShapeCategory

/-! ## Shapes by their forms -/

namespace ShapeRecord

variable {record : ShapeRecord}

/-- The part of a record is the form of its declaration. The other forms follow. -/
theorem simple?_eq_some_iff {shape : SimpleShape} :
    record.simple? = some shape ↔ ShapeDecl.form record.decl = .simple shape := by
  unfold simple?
  split <;> simp_all

theorem enum?_eq_some_iff {shape : EnumShape} :
    record.enum? = some shape ↔ ShapeDecl.form record.decl = .enum shape := by
  unfold enum?
  split <;> simp_all

theorem aggregate?_eq_some_iff {shape : AggregateShape} :
    record.aggregate? = some shape ↔ ShapeDecl.form record.decl = .aggregate shape := by
  unfold aggregate?
  split <;> simp_all

theorem entity?_eq_some_iff {shape : EntityShape} :
    record.entity? = some shape ↔ ShapeDecl.form record.decl = .entity shape := by
  unfold entity?
  split <;> simp_all

theorem operation?_eq_some_iff {shape : OperationShape} :
    record.operation? = some shape ↔ ShapeDecl.form record.decl = .operation shape := by
  unfold operation?
  split <;> simp_all

end ShapeRecord

/-- The form of a part is a part. -/
theorem ShapeDecl.isPart_of_form {text : List Char} {decl : ShapeDecl} {form : ShapeDecl.Form}
    (part : decl.tree.IsPart text) (same : ShapeDecl.form decl = form) :
    form.tree.IsPart text := by
  rw [← same, ShapeDecl.tree_form]
  exact part

/-! ## Indexes -/

/-- A shape that a document declares. -/
structure ShapeRecord.IsDeclaredIn (text : List Char) (record : ShapeRecord) : Prop where
  part : record.decl.tree.IsPart text
  category : ShapeCategory.ofDecl record.decl = .ok record.category
  name : ∃ identifier, ShapeDecl.name record.decl = .ok identifier ∧
    View.text identifier = record.name

namespace ShapeRecord.IsDeclaredIn

variable {text : List Char} {record : ShapeRecord}

theorem exists_simple? (declared : record.IsDeclaredIn text) (filed : record.category = .simple) :
    ∃ shape, record.simple? = some shape ∧ shape.tree.IsPart text := by
  have formed := ShapeCategory.isOfForm_ofDecl declared.category
  rw [filed] at formed
  cases form : ShapeDecl.form record.decl with
  | enum | aggregate | entity | operation =>
    rw [form] at formed
    cases formed
  | simple shape =>
    exact ⟨shape, simple?_eq_some_iff.mpr form, ShapeDecl.isPart_of_form declared.part form⟩

theorem exists_aggregate? (declared : record.IsDeclaredIn text)
    (filed : record.category = .list ∨ record.category = .structureShape) :
    ∃ shape, record.aggregate? = some shape ∧ shape.tree.IsPart text := by
  have formed := ShapeCategory.isOfForm_ofDecl declared.category
  cases form : ShapeDecl.form record.decl with
  | simple | enum | entity | operation =>
    rw [form] at formed
    rcases filed with filed | filed
    · rw [filed] at formed
      cases formed
    · rw [filed] at formed
      cases formed
  | aggregate shape =>
    exact ⟨shape, aggregate?_eq_some_iff.mpr form, ShapeDecl.isPart_of_form declared.part form⟩

end ShapeRecord.IsDeclaredIn

namespace ShapeIndex

variable {text : List Char} {index : ShapeIndex}

/-- The index holds shapes and statements of a document, and each shape under what
its declaration says. -/
structure IsOf (text : List Char) (index : ShapeIndex) : Prop where
  key : ∀ entry ∈ index.shapes.entries, entry.1 = (entry.2.category, entry.2.name)
  declared : ∀ entry ∈ index.shapes.entries, entry.2.IsDeclaredIn text
  applies : ∀ statement ∈ index.applies, statement.tree.IsPart text

theorem IsOf.empty (text : List Char) (namespaceName : Option String) :
    (ShapeIndex.empty namespaceName).IsOf text :=
  ⟨by simp [ShapeIndex.empty, Table.empty], by simp [ShapeIndex.empty, Table.empty],
    by simp [ShapeIndex.empty]⟩

/-- Declaring a part of a document keeps the index one of the document. -/
theorem gives_declare {statement : ShapeStatement} (holds : index.IsOf text)
    (part : statement.tree.IsPart text) :
    Gives (index.declare statement) fun next => next.IsOf text := by
  refine (View.gives_required part (by decide)).bind fun decl partDecl => ?_
  obtain ⟨identifier, named, -⟩ := View.gives_required partDecl
    (show Category.guarantees _ .identifier from by decide)
  obtain ⟨category, filed, -⟩ := ShapeCategory.succeeds_ofDecl partDecl
  unfold ShapeDecl.name
  rw [named, filed]
  refine (View.gives_required part (by decide)).bind fun statements partTraits => ?_
  refine (Trait.succeeds_ofStatements partTraits).bind fun traits => .pure ?_
  have fresh : ShapeRecord.IsDeclaredIn text ⟨category, View.text identifier, decl⟩ :=
    ⟨partDecl, filed, identifier, named, rfl⟩
  refine ⟨?_, ?_, holds.applies⟩
  · intro entry member
    rcases Table.mem_entries_insert member with old | rfl
    · exact holds.key entry old
    · rfl
  · intro entry member
    rcases Table.mem_entries_insert member with old | rfl
    · exact holds.declared entry old
    · exact fresh

/-- The statements of a document can all be indexed. -/
theorem gives_ofStatements? (namespaceName : Option String) {statements? : Option ShapeStatements}
    (part : ∀ statements, statements? = some statements → statements.tree.IsPart text) :
    Gives (ofStatements? namespaceName statements?) fun index => index.IsOf text := by
  cases statements? with
  | none => exact .pure (.empty text namespaceName)
  | some statements =>
    have partStatements := part statements rfl
    refine Gives.bind (Gives.foldlM (IsOf.empty text namespaceName) ?_) ?_
    · intro index holds statement member
      have partStatement := View.isPart_of_mem_many partStatements member
      exact gives_declare holds partStatement
    · intro index holds
      exact .pure ⟨holds.key, holds.declared,
        fun statement member => View.isPart_of_mem_many partStatements member⟩

/-- A document has an index, and it is one of the document. -/
theorem gives_ofIdl {idl : Idl} (part : idl.tree.IsPart text) :
    Gives (ShapeIndex.ofIdl idl) fun index => index.IsOf text := by
  unfold ShapeIndex.ofIdl
  refine (View.gives_required part (by decide)).bind fun shapes partShapes => ?_
  have indexed (namespaceName : Option String) :=
    gives_ofStatements? namespaceName fun _ => View.isPart_of_optional partShapes
  cases found : ShapeSection.namespaceStatement shapes with
  | none => exact indexed none
  | some statement =>
    have partStatement := View.isPart_of_optional partShapes found
    refine Succeeds.bind ?_ fun namespaceName => indexed namespaceName
    exact (View.gives_required partStatement (by decide)).map fun _ _ => trivial

/-! ## Looking shapes up -/

/-- The records of a category are those entered under its names. -/
theorem mem_records_iff {category : ShapeCategory} {record : ShapeRecord} :
    record ∈ index.records category ↔
      ∃ name, ((category, name), record) ∈ index.shapes.entries := by
  unfold records
  constructor
  · intro member
    obtain ⟨⟨⟨c, name⟩, found⟩, present, rfl⟩ := List.mem_map.mp member
    obtain ⟨inside, same⟩ := List.mem_filter.mp present
    have filed : c = category := by simpa using same
    rw [filed] at inside
    exact ⟨name, inside⟩
  · intro filed
    rcases filed with ⟨name, inside⟩
    exact List.mem_map.mpr ⟨_, List.mem_filter.mpr ⟨inside, by simp⟩, rfl⟩

/-- What is found under a category is one of its shapes. -/
theorem mem_records_of_find? {category : ShapeCategory} {id : String} {record : ShapeRecord}
    (found : index.find? category id = some record) : record ∈ index.records category := by
  obtain ⟨name, -, stored⟩ := Option.bind_eq_some_iff.mp found
  exact mem_records_iff.mpr ⟨name, Table.mem_entries_of_get? stored⟩

/-- Every record of the index is declared in the text, and listed under its own category. -/
theorem IsOf.isDeclaredIn (holds : index.IsOf text) {category : ShapeCategory}
    {record : ShapeRecord} (member : record ∈ index.records category) :
    record.IsDeclaredIn text ∧ record.category = category := by
  obtain ⟨name, inside⟩ := mem_records_iff.mp member
  exact ⟨holds.declared _ inside, (Prod.mk.inj (holds.key _ inside)).1.symm⟩

theorem IsOf.isDeclaredIn_of_lookup? (holds : index.IsOf text) {id : String}
    {record : ShapeRecord} (found : index.lookup? id = some record) :
    record.IsDeclaredIn text := by
  obtain ⟨category, -, found⟩ := List.exists_of_findSome?_eq_some found
  have member := mem_records_of_find? found
  exact (holds.isDeclaredIn member).1

end ShapeIndex

end ServiceIdl
