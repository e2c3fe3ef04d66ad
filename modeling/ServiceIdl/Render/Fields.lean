import ServiceIdl.Model.Basic
import ServiceIdl.Render.Datum

/-!
# The fields of a resolution

`Resolution.datum` lays a resolution out as data: a record for each part of the
model, with the fields in a fixed order. A constraint is a record with the name of
its rule and, if it has one, its bound.
-/

namespace ServiceIdl

/-- A place, with its lines, its columns and its offsets. -/
def Location.datum (l : Location) : Datum :=
  .record
    [("startLine", .nat l.startLine), ("startCol", .nat l.startCol),
     ("startOffset", .nat l.startOffset), ("endLine", .nat l.endLine),
     ("endCol", .nat l.endCol), ("endOffset", .nat l.endOffset)]

/-- A diagnostic, with the names of its severity and its code. -/
def Diagnostic.datum (d : Diagnostic) : Datum :=
  .record
    [("code", .text d.code.name), ("message", .text d.message),
     ("severity", .text d.severity.name), ("sourcePath", .text d.sourcePath),
     ("range", d.location.datum)]

/-! ## Members -/

/-- The name of the rule that a constraint is. -/
def Constraint.rule : Constraint → String
  | .required => "required"
  | .minLength _ => "stringMinLength"
  | .maxLength _ => "stringMaxLength"
  | .pattern _ => "stringPattern"
  | .atLeast _ => "numberGte"
  | .atMost _ => "numberLte"
  | .uniqueItems => "arrayUniqueItems"

/-- The bound of a constraint, or its pattern. -/
def Constraint.bound? : Constraint → Option Datum
  | .required => none
  | .minLength n => some (.nat n)
  | .maxLength n => some (.nat n)
  | .pattern text => some (.text text)
  | .atLeast n => some (.int n)
  | .atMost n => some (.int n)
  | .uniqueItems => none

/-- A constraint, called by its name, with its bound or its text. -/
def Constraint.datum (c : Constraint) : Datum :=
  .record (("rule", .text c.rule) :: (c.bound?.map fun bound => ("value", bound)).toList)

/-- A type is told apart by its kind: a scalar or the name of a shape. -/
def TypeName.datum : TypeName → Datum
  | .scalar s => .record [("kind", .text "scalar"), ("name", .text s.name)]
  | .shape name => .record [("kind", .text "shape"), ("name", .text name)]

/-- A member. The place is called its range. -/
def Member.datum (m : Member) : Datum :=
  .record
    [("name", .text m.name), ("isArray", .bool m.isArray), ("isPrimitive", .bool m.isPrimitive),
     ("typeName", .optional TypeName.datum m.typeName),
     ("rules", .each Constraint.datum m.rules), ("range", m.location.datum)]

/-- A deprecation. What the trait leaves out is null. -/
def Deprecation.datum (d : Deprecation) : Datum :=
  .record
    [("range", d.location.datum), ("message", .optional .text d.message),
     ("since", .optional .text d.since)]

/-! ## Interfaces -/

/-- A method of a path, with the name of its verb. -/
def HttpMethod.datum (m : HttpMethod) : Datum :=
  .record
    [("verb", .text m.verb.name), ("successCode", .nat m.successCode), ("name", .text m.name),
     ("range", m.location.datum)]

/-- A path with its methods. -/
def HttpPath.datum (p : HttpPath) : Datum :=
  .record [("path", .text p.path), ("methods", .each HttpMethod.datum p.methods)]

/-- The type that a method returns. -/
def ReturnType.datum (t : ReturnType) : Datum :=
  .record
    [("typeName", .text t.typeName), ("rules", .each Constraint.datum t.rules),
     ("range", t.location.datum)]

/-- A method of an interface. -/
def Method.datum (m : Method) : Datum :=
  .record
    [("name", .text m.name), ("deprecated", .optional Deprecation.datum m.deprecated),
     ("parameters", .each Member.datum m.parameters),
     ("returnType", .optional ReturnType.datum m.returnType), ("range", m.location.datum)]

/-- An interface. -/
def Interface.datum (i : Interface) : Datum :=
  .record
    [("name", .text i.name), ("httpPaths", .each HttpPath.datum i.httpPaths),
     ("methods", .each Method.datum i.methods), ("range", i.location.datum)]

/-! ## Types and enumerations -/

/-- A type of the model, or a union. -/
def StructureType.datum (t : StructureType) : Datum :=
  .record
    [("name", .text t.name), ("deprecated", .optional Deprecation.datum t.deprecated),
     ("properties", .each Member.datum t.properties), ("range", t.location.datum)]

/-- The literal of an enumeration's member is a text or an integer by itself. -/
def EnumLiteral.datum : EnumLiteral → Datum
  | .string text => .text text
  | .integer n => .int n

/-- A value of an enumeration. One without a literal has null. -/
def EnumValue.datum (v : EnumValue) : Datum :=
  .record
    [("name", .text v.name), ("value", .optional EnumLiteral.datum v.value),
     ("deprecated", .optional Deprecation.datum v.deprecated), ("range", v.location.datum)]

/-- An enumeration, with the keyword of its kind. -/
def EnumType.datum (e : EnumType) : Datum :=
  .record
    [("name", .text e.name), ("kind", .text e.kind.name),
     ("deprecated", .optional Deprecation.datum e.deprecated),
     ("values", .each EnumValue.datum e.values), ("range", e.location.datum)]

/-! ## The whole -/

/-- A model, with empty lists where it has nothing. -/
def ServiceModel.datum (m : ServiceModel) : Datum :=
  .record
    [("sourcePath", .text m.sourcePath), ("title", .text m.title),
     ("majorVersion", .nat m.majorVersion), ("interfaces", .each Interface.datum m.interfaces),
     ("types", .each StructureType.datum m.types), ("enums", .each EnumType.datum m.enums),
     ("unions", .each StructureType.datum m.unions)]

/-- A resolution: its model, and behind it what is reported. -/
def Resolution.datum (r : Resolution) : Datum :=
  .record
    [("model", r.model.datum), ("diagnostics", .each Diagnostic.datum r.diagnostics)]

end ServiceIdl
