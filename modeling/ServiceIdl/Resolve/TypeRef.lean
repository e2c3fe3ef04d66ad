import ServiceIdl.Model.Basic
import ServiceIdl.Resolve.Reporting
import ServiceIdl.Shape.Index

/-!
# What a type id refers to

An id in the place of a type is, by the first that applies: a keyword of a
simple type, a name of the prelude's table, a simple shape of the document, a
further name of the prelude, or the name of some other shape. Before the simple
shapes come the lists of the document, but only for the target of a member: the
element of a list is never taken apart as a list again.
-/

namespace ServiceIdl

/-- What an id in the place of a type means, lists apart. -/
inductive TypeRef where
  | keyword (word : String)
  | wrapper (scalar : Scalar)
  /-- A simple shape of the document. -/
  | alias (shape : ShapeRecord)
  /-- A name that only the prelude could have, and has not. -/
  | expectedPrimitive (id : String)
  | named (id : String)

namespace ShapeIndex

/-- Whether an id means a type of the language whatever the document declares. -/
def isBuiltin (id : String) : Bool := Scalar.isKeyword id || (Scalar.ofWrapper? id).isSome

/-- What an id means, lists apart. -/
def typeRef (index : ShapeIndex) (id : String) : TypeRef :=
  if Scalar.isKeyword id then .keyword id
  else
    match Scalar.ofWrapper? id with
    | some scalar => .wrapper scalar
    | none =>
      match index.find? .simple id with
      | some shape => .alias shape
      | none => if Scalar.isExpectedPrimitive id then .expectedPrimitive id else .named id

/-- The list of the document that an id means. -/
def listRef? (index : ShapeIndex) (id : String) : Option ShapeRecord :=
  if isBuiltin id then none else index.find? .list id

end ShapeIndex

/-- What is known about a type: whether it is an array, whether it or its element is
a scalar, what it is called, and the traits of the shapes that were looked through. -/
structure ResolvedType where
  isArray : Bool
  isPrimitive : Bool
  typeName : Option TypeName
  traits : List Trait

namespace ResolvedType

/-- A type of the language. -/
def scalar (scalar : Scalar) (traits : List Trait) : ResolvedType :=
  { isArray := false, isPrimitive := true, typeName := some (.scalar scalar), traits }

/-- The shape of this name, which is not looked through. -/
def named (name : String) : ResolvedType :=
  { isArray := false, isPrimitive := false, typeName := some (.shape name), traits := [] }

/-- Nothing is known. -/
def unknown : ResolvedType :=
  { isArray := false, isPrimitive := false, typeName := none, traits := [] }

/-- An array of elements of which nothing is known. -/
def unknownArray (traits : List Trait) : ResolvedType :=
  { isArray := true, isPrimitive := false, typeName := none, traits }

/-- The type with traits that come behind its own. -/
def withTraits (t : ResolvedType) (traits : List Trait) : ResolvedType :=
  { t with traits := t.traits ++ traits }

end ResolvedType

/-- The scalar of a keyword written at a span. A keyword without one is reported
and counts as a string. -/
def scalarOfKeyword (keyword : String) (span : Span) : Reporting Scalar :=
  match Scalar.ofKeyword? keyword with
  | some scalar => .value scalar
  | none => .noting .string [⟨.unsupportedSimpleType keyword, span⟩]

namespace ShapeIndex

/-- The type of a simple shape. -/
def resolveAlias (index : ShapeIndex) (shape : ShapeRecord) : Reporting ResolvedType :=
  match shape.simple? with
  | none => .value (.named shape.name)
  | some decl => do
    let keyword ← SimpleShape.typeName decl
    let scalar ← scalarOfKeyword keyword.text shape.span
    return .scalar scalar (index.traitsOf shape.name)

/-- The type of an id written at a span, lists apart. -/
def resolveTypeRef (index : ShapeIndex) (id : String) (span : Span) : Reporting ResolvedType :=
  match index.typeRef id with
  | .keyword word => do return .scalar (← scalarOfKeyword word span) []
  | .wrapper scalar => .value (.scalar scalar [])
  | .alias shape => index.resolveAlias shape
  | .expectedPrimitive id =>
    .noting (.scalar .string []) [⟨.unknownPrimitive id, span⟩]
  | .named id => .value (.named id)

end ShapeIndex

end ServiceIdl
