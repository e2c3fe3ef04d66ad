import ServiceIdl.Resolve.Member

/-!
# Structures and enumerations

Every structure of a document becomes a type of its model, and every enumeration
an enumeration. The values of an enumeration are texts or integers; any other
literal is left out.
-/

namespace ServiceIdl

/-- The deprecation among the traits of a declaration. Only the last such trait
counts. -/
def Deprecation.ofTraits? (lines : LineIndex) (traits : List Trait) : Option Deprecation :=
  (Trait.find? traits "deprecated").map fun t =>
    { location := lines.locate t.span
      message := (t.field? "message").bind Value.string?
      since := (t.field? "since").bind Value.string? }

/-- The value of an enumeration that a literal gives. -/
def EnumLiteral.ofValue? : Value → Option EnumLiteral
  | .string text => some (.string text)
  | .number (.integer n) => some (.integer n)
  | _ => none

namespace ShapeIndex

/-- The type of a model for a structure. -/
def resolveStructure (index : ShapeIndex) (lines : LineIndex) (record : ShapeRecord) :
    Reporting StructureType := do
  let properties ← index.resolveMembers lines record
  return {
    name := record.name
    deprecated := Deprecation.ofTraits? lines (index.traitsOf record.name)
    properties
    location := lines.locate record.span }

end ShapeIndex

namespace EnumValue

/-- The literal given to a member of an enumeration. -/
def literalOf? (member : EnumShapeMember) : Except Defect (Option EnumLiteral) :=
  match EnumShapeMember.value member with
  | none => .ok none
  | some assignment => do
    return EnumLiteral.ofValue? (← Value.ofNode (← ValueAssignment.value assignment))

/-- The value of a model for a member of an enumeration. -/
def ofMember (lines : LineIndex) (member : EnumShapeMember) : Except Defect EnumValue := do
  let traits ← Trait.ofStatements (← EnumShapeMember.traits member)
  let value ← literalOf? member
  return {
    name := (← EnumShapeMember.name member).text
    value
    deprecated := Deprecation.ofTraits? lines traits
    location := lines.locate member.span }

end EnumValue

namespace ShapeIndex

/-- The kind and the values of an enumeration. -/
def resolveEnumShape (lines : LineIndex) (shape : EnumShape) :
    Except Defect (EnumKind × List EnumValue) := do
  let word := (← EnumShape.typeName shape).text
  let members := EnumShapeMembers.members (← EnumShape.members shape)
  let values ← members.mapM (EnumValue.ofMember lines)
  return (if word = "intEnum" then .intEnum else .enum, values)

/-- The enumeration of a model for one of a document. -/
def resolveEnum (index : ShapeIndex) (lines : LineIndex) (record : ShapeRecord) :
    Except Defect EnumType := do
  let (kind, values) ←
    match record.enum? with
    | none => pure (EnumKind.enum, [])
    | some shape => resolveEnumShape lines shape
  return {
    name := record.name
    kind
    deprecated := Deprecation.ofTraits? lines (index.traitsOf record.name)
    values
    location := lines.locate record.span }

end ShapeIndex

end ServiceIdl
