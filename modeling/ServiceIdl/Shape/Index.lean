import ServiceIdl.Shape.Table
import ServiceIdl.Shape.Trait
import ServiceIdl.Syntax.Section

/-!
# The shapes of a document

A `ShapeIndex` finds the shapes of a document by category and name, so that
references can be followed in any direction. A name that is declared twice in a
category keeps its first place and its last declaration. The traits of a name
are those of its last declaration in any category.

A shape is looked up by its bare name or by its id in the namespace of the
document. An id in another namespace is never found.
-/

namespace ServiceIdl

/-- What a shape is declared as. -/
inductive ShapeCategory where
  | simple
  | enum
  | list
  | map
  | union
  | structureShape
  | service
  | resource
  | operation
deriving DecidableEq, Repr

namespace ShapeCategory

/-- All categories, in the order in which a lookup tries them. -/
def all : List ShapeCategory :=
  [.simple, .enum, .list, .map, .union, .structureShape, .service, .resource, .operation]

theorem mem_all (c : ShapeCategory) : c ∈ all := by cases c <;> decide

/-- The category of an aggregate with this type name. -/
def ofAggregateName : String → ShapeCategory
  | "list" => .list
  | "map" => .map
  | "union" => .union
  | _ => .structureShape

/-- The category of an entity with this type name. -/
def ofEntityName : String → ShapeCategory
  | "resource" => .resource
  | _ => .service

/-- The category of a declaration. -/
def ofDecl (decl : ShapeDecl) : Except Defect ShapeCategory :=
  match ShapeDecl.form decl with
  | .simple _ => .ok .simple
  | .enum _ => .ok .enum
  | .aggregate shape => (AggregateShape.typeName shape).map fun name => ofAggregateName name.text
  | .entity shape => (EntityShape.typeName shape).map fun name => ofEntityName name.text
  | .operation _ => .ok .operation

end ShapeCategory

/-- A declared shape. -/
structure ShapeRecord where
  category : ShapeCategory
  name : String
  decl : ShapeDecl

namespace ShapeRecord

/-- What the declaration covers of the document. -/
def span (record : ShapeRecord) : Span := record.decl.span

/-- The parts of the declaration, if it is that of a simple shape. -/
def simple? (record : ShapeRecord) : Option SimpleShape :=
  match ShapeDecl.form record.decl with
  | .simple shape => some shape
  | _ => none

/-- The parts of the declaration, if it is that of an enumeration. -/
def enum? (record : ShapeRecord) : Option EnumShape :=
  match ShapeDecl.form record.decl with
  | .enum shape => some shape
  | _ => none

/-- The parts of the declaration, if it is that of a structure, a list, a map or a union. -/
def aggregate? (record : ShapeRecord) : Option AggregateShape :=
  match ShapeDecl.form record.decl with
  | .aggregate shape => some shape
  | _ => none

/-- The parts of the declaration, if it is that of a service or a resource. -/
def entity? (record : ShapeRecord) : Option EntityShape :=
  match ShapeDecl.form record.decl with
  | .entity shape => some shape
  | _ => none

/-- The parts of the declaration, if it is that of an operation. -/
def operation? (record : ShapeRecord) : Option OperationShape :=
  match ShapeDecl.form record.decl with
  | .operation shape => some shape
  | _ => none

end ShapeRecord

/-- The shapes of a document, with their traits and the `apply` statements. -/
structure ShapeIndex where
  namespaceName : Option String
  shapes : Table (ShapeCategory × String) ShapeRecord
  traits : Table String (List Trait)
  applies : List ApplyStatement

namespace ShapeIndex

/-- The index of a document that declares nothing. -/
def empty (namespaceName : Option String) : ShapeIndex :=
  { namespaceName, shapes := .empty, traits := .empty, applies := [] }

/-- The index with one more declared shape. -/
def declare (index : ShapeIndex) (statement : ShapeStatement) : Except Defect ShapeIndex := do
  let decl ← ShapeStatement.shape statement
  let name := (← ShapeDecl.name decl).text
  let category ← ShapeCategory.ofDecl decl
  let traits ← Trait.ofStatements (← ShapeStatement.traits statement)
  return { index with
    traits := index.traits.insert name traits
    shapes := index.shapes.insert (category, name) { category, name, decl } }

/-- The index of the statements of a document, if it has any. -/
def ofStatements? (namespaceName : Option String) :
    Option ShapeStatements → Except Defect ShapeIndex
  | none => return empty namespaceName
  | some statements => do
    let index ← (ShapeStatements.shapes statements).foldlM declare (empty namespaceName)
    return { index with applies := ShapeStatements.applies statements }

/-- The index of a document. -/
def ofIdl (idl : Idl) : Except Defect ShapeIndex := do
  let part ← Idl.shapeSection idl
  let namespaceName ←
    match ShapeSection.namespaceStatement part with
    | some statement => (NamespaceStatement.name statement).map fun name => some name.text
    | none => pure none
  ofStatements? namespaceName (ShapeSection.statements part)

/-- The bare name that an id stands for in this document, if it can stand for
any. -/
def localName? (index : ShapeIndex) (id : String) : Option String :=
  match Text.splitAt? '#' id.toList with
  | none => some id
  | some (space, name) =>
    if index.namespaceName = some (String.ofList space) then some (String.ofList name) else none

/-- The shape of a category with an id. -/
def find? (index : ShapeIndex) (category : ShapeCategory) (id : String) : Option ShapeRecord :=
  (index.localName? id).bind fun name => index.shapes.get? (category, name)

/-- The shape with an id, of the first category that has one. -/
def lookup? (index : ShapeIndex) (id : String) : Option ShapeRecord :=
  ShapeCategory.all.findSome? fun category => index.find? category id

/-- The shapes of a category, in the order of their first declarations. -/
def records (index : ShapeIndex) (category : ShapeCategory) : List ShapeRecord :=
  (index.shapes.entries.filter fun ((c, _), _) => c = category).map Prod.snd

/-- The traits of the shapes with an id. -/
def traitsOf (index : ShapeIndex) (id : String) : List Trait :=
  ((index.localName? id).bind index.traits.get?).getD []

/-- The number of shapes. -/
def size (index : ShapeIndex) : Nat := index.shapes.size

end ShapeIndex

end ServiceIdl
