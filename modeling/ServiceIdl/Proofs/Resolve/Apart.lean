import ServiceIdl.Proofs.Resolve.Findings

/-!
# Telling parts by their places

No declaration is inside another, nor is a member or an application of a trait. So each of them
is told by its span (`ShapeMember.eq_of_span_eq`, `TraitApplication.eq_of_span_eq`,
`ShapeIndex.eq_of_covers_of_mem_records`), and a trait in front of a declaration tells which name
it belongs to (`HasLastTraits.name_eq_of_span_eq`).
-/

namespace ServiceIdl

/-! ## What rules call -/

namespace Rule

/-- The rules of node values and of what is inside them. -/
def insideValues : List Rule :=
  [.identifier, .identifierStart, .identifierChars, .namespaceName, .absoluteRootShapeId,
   .shapeId, .nodeValue, .nodeArray, .nodeObject, .nodeObjectKvp, .nodeObjectKey, .number,
   .nodeKeyword, .nodeStringValue, .textBlock, .quotedText]

/-- The rules of what is inside services and resources. -/
def insideEntities : List Rule := insideValues ++ [.entityTypeName, .mixins, .keywordWith]

/-- The rules of what is inside applications of traits. -/
def insideTraits : List Rule := insideValues ++ [.traitName, .traitBody, .traitStructure]

/-- The rules of what is inside members. -/
def insideMembers : List Rule :=
  insideTraits ++ [.traitStatements, .traitApplication, .explicitShapeMember,
    .elidedShapeMember, .valueAssignment]

/-- The rules that call no shape statement. -/
def insideStatements : List Rule :=
  all.filter fun name =>
    !([.idl, .shapeSection, .shapeStatements, .shapeStatement] : List Rule).contains name

/-- The rules that call no shape and no `apply` statement. -/
def outsideStatements : List Rule :=
  all.filter fun name =>
    !([.idl, .shapeSection, .shapeStatements, .applyStatement, .shapeStatement, .simpleShape,
      .enumShape, .aggregateShape, .entityShape, .operationShape] : List Rule).contains name

end Rule

/-! ## Nodes -/

section Nodes

variable {text : List Char} {root : Tree} (document : root.IsDocument text)

include document

/-- No member is inside another, so a member is known by its span. -/
theorem ShapeMember.eq_of_span_eq {member other : ShapeMember} (occurs : member.tree.Occurs root)
    (occurs' : other.tree.Occurs root) (same : member.span = other.span) : member = other := by
  have bars : Kind.Bars Rule.insideMembers Category.shapeMember.kinds
      Category.shapeMember.kinds := by decide
  exact View.eq_of_span_eq bars (by decide) document occurs occurs' same

theorem TraitApplication.eq_of_span_eq {application other : TraitApplication}
    (occurs : application.tree.Occurs root) (occurs' : other.tree.Occurs root)
    (same : application.span = other.span) : application = other := by
  have bars : Kind.Bars Rule.insideTraits Category.traitApplication.kinds
      Category.traitApplication.kinds := by decide
  exact View.eq_of_span_eq bars (by decide) document occurs occurs' same

theorem ShapeDecl.eq_of_covers {decl other : ShapeDecl} (occurs : decl.tree.Occurs root)
    (occurs' : other.tree.Occurs root) {offset : Nat} (here : decl.span.Covers offset)
    (here' : other.span.Covers offset) : decl = other := by
  have bars : Kind.Bars Rule.outsideStatements Category.shapeDecl.kinds Category.shapeDecl.kinds :=
    by decide
  exact View.ext (bars.eq_of_covers bars document occurs occurs' decl.accepted other.accepted here
    here')

/-- No byte is covered by two shape statements. -/
theorem ShapeStatement.eq_of_covers {statement other : ShapeStatement}
    (occurs : statement.tree.Occurs root) (occurs' : other.tree.Occurs root) {offset : Nat}
    (here : statement.span.Covers offset) (here' : other.span.Covers offset) :
    statement = other := by
  have bars : Kind.Bars Rule.insideStatements Category.shapeStatement.kinds
      Category.shapeStatement.kinds := by decide
  exact View.ext (bars.eq_of_covers bars document occurs occurs' statement.accepted other.accepted
    here here')

end Nodes

/-! ## Shapes -/

/-- A declaration declares one shape. -/
theorem ShapeRecord.IsDeclaredIn.eq_of_decl_eq {text : List Char} {record other : ShapeRecord}
    (declared : record.IsDeclaredIn text) (declared' : other.IsDeclaredIn text)
    (same : record.decl = other.decl) : record = other := by
  obtain ⟨category, name, decl⟩ := record
  obtain ⟨category', name', decl'⟩ := other
  cases same
  obtain ⟨identifier, readName, named⟩ := declared.name
  obtain ⟨identifier', readName', named'⟩ := declared'.name
  cases readName.symm.trans readName'
  cases named.symm.trans named'
  cases declared.category.symm.trans declared'.category
  rfl

/-- The traits of a declaration are on applications inside its statement. -/
theorem ShapeStatement.Declares.exists_application {name : String} {statement : ShapeStatement}
    {traits : List Trait} (declares : ShapeStatement.Declares name statement traits) {t : Trait}
    (present : t ∈ traits) :
    ∃ application : TraitApplication, application.tree.Occurs statement.tree ∧
      t.span = application.span := by
  obtain ⟨_, _, part, -, -, -, readPart, readTraits⟩ := declares
  have within : part.tree.Occurs statement.tree := View.occurs_of_required .self readPart
  obtain ⟨application, occurs, read⟩ := Trait.isFrom_of_ofStatements within readTraits t present
  exact ⟨application, occurs, Trait.span_of_ofNode read⟩

/-- The traits of two names are in different places. -/
theorem HasLastTraits.name_eq_of_span_eq {text : List Char} {idl : Idl}
    (document : idl.tree.IsDocument text) {statements : List ShapeStatement}
    (shapes : idl.HasShapes statements) {name name' : String} {traits others : List Trait}
    (last : HasLastTraits statements name traits) (last' : HasLastTraits statements name' others)
    {t t' : Trait} (present : t ∈ traits) (present' : t' ∈ others) (same : t.span = t'.span) :
    name = name' := by
  obtain ⟨earlier, statement, later, split, declares, -⟩ := First.exists_append_of_reverse last
  obtain ⟨earlier', statement', later', split', declares', -⟩ :=
    First.exists_append_of_reverse last'
  have occurs : statement.tree.Occurs idl.tree :=
    ShapeIndex.occurs_of_hasShapes shapes (by simp [split])
  have occurs' : statement'.tree.Occurs idl.tree :=
    ShapeIndex.occurs_of_hasShapes shapes (by simp [split'])
  obtain ⟨application, within, place⟩ := declares.exists_application present
  obtain ⟨application', within', place'⟩ := declares'.exists_application present'
  have one := TraitApplication.eq_of_span_eq document (within.trans occurs) (within'.trans occurs')
    (place.symm.trans (same.trans place'))
  subst one
  have here : application.span.Covers application.span.start :=
    View.covers_start document (within.trans occurs) (by decide)
  have joint := ShapeStatement.eq_of_covers document occurs occurs'
    ((document.sits.of_occurs occurs).covers within here)
    ((document.sits.of_occurs occurs').covers within' here)
  subst joint
  exact (declares.unique declares').1

namespace ShapeIndex

variable {text : List Char} {root : Tree} {index : ShapeIndex}

/-- Of the shapes of a document, one at most covers a byte. -/
theorem eq_of_covers_of_mem_records (document : root.IsDocument text) (holds : index.IsOf text)
    (origin : index.IsFrom root) {category category' : ShapeCategory} {record other : ShapeRecord}
    (member : record ∈ index.records category) (member' : other ∈ index.records category')
    {offset : Nat} (here : record.span.Covers offset) (here' : other.span.Covers offset) :
    record = other := by
  have occurs := origin.shapes _ record member
  have occurs' := origin.shapes _ other member'
  exact (holds.isDeclaredIn member).1.eq_of_decl_eq (holds.isDeclaredIn member').1
    (ShapeDecl.eq_of_covers document occurs occurs' here here')

/-- A member is one of one shape. -/
theorem HasMember.shape_eq (document : root.IsDocument text) (holds : index.IsOf text)
    (origin : index.IsFrom root) {category category' : ShapeCategory}
    {shape shape' : AggregateShape} {member : ShapeMember}
    (has : index.HasMember category shape member)
    (has' : index.HasMember category' shape' member) : shape = shape' := by
  have here : member.span.Covers member.span.start :=
    View.covers_start document (has.occurs origin) (by decide)
  obtain ⟨record, inside, _, form, members, present⟩ := has
  obtain ⟨record', inside', _, form', members', present'⟩ := has'
  have covers {record : ShapeRecord} {category : ShapeCategory} {shape : AggregateShape}
      {members : List ShapeMember} (inside : record ∈ index.records category)
      (form : record.aggregate? = some shape) (given : AggregateShape.HasMembers shape members)
      (present : member ∈ members) : record.span.Covers member.span.start := by
    obtain ⟨part, read, rfl⟩ := given
    have occurs : shape.tree.Occurs record.decl.tree :=
      ShapeDecl.occurs_of_form .self (ShapeRecord.aggregate?_eq_some_iff.mp form)
    have within := View.occurs_of_mem_many (View.occurs_of_required occurs read) present
    exact (document.sits.of_occurs (origin.shapes _ record inside)).covers within here
  have same := eq_of_covers_of_mem_records document holds origin inside inside'
    (covers inside form members present) (covers inside' form' members' present')
  subst same
  exact Option.some.inj (form.symm.trans form')

end ShapeIndex

end ServiceIdl
