import ServiceIdl.Model.Constraint
import ServiceIdl.Model.Diagnostic
import ServiceIdl.Model.Http
import ServiceIdl.Model.Scalar

/-!
# The service model

The interfaces, types and enumerations of a document. Everything with a name
carries the place that it comes from. Look-ups by name give the first match.
-/

namespace ServiceIdl

/-- A `deprecated` trait. -/
structure Deprecation where
  /-- The place of the trait. -/
  location : Location
  message : Option String
  since : Option String
deriving DecidableEq, Repr

/-- The type that a member refers to. -/
inductive TypeName where
  | scalar (scalar : Scalar)
  /-- A shape of the document or of another one, by name. -/
  | shape (name : String)
deriving DecidableEq, Repr

namespace TypeName

/-- The scalar that the type is, if it is one. -/
def scalar? : TypeName → Option Scalar
  | .scalar s => some s
  | .shape _ => none

/-- The name of the shape that the type is, if it is one. -/
def shape? : TypeName → Option String
  | .scalar _ => none
  | .shape name => some name

end TypeName

/-- A parameter or a property. -/
structure Member where
  name : String
  isArray : Bool
  isPrimitive : Bool
  /-- Absent if the type could not be found out. -/
  typeName : Option TypeName
  rules : List Constraint
  location : Location
deriving DecidableEq, Repr

/-- The output structure of an operation. -/
structure ReturnType where
  typeName : String
  rules : List Constraint
  location : Location
deriving DecidableEq, Repr

/-- An operation. -/
structure Method where
  name : String
  deprecated : Option Deprecation
  parameters : List Member
  returnType : Option ReturnType
  location : Location
deriving DecidableEq, Repr

/-- A service. -/
structure Interface where
  name : String
  httpPaths : List HttpPath
  methods : List Method
  location : Location
deriving DecidableEq, Repr

/-- A structure. -/
structure StructureType where
  name : String
  deprecated : Option Deprecation
  properties : List Member
  location : Location
deriving DecidableEq, Repr

/-- Whether the values of an enumeration are texts or integers. -/
inductive EnumKind where
  | enum
  | intEnum
deriving DecidableEq, Repr

/-- The keyword of the kind, as a document is written. -/
def EnumKind.name : EnumKind → String
  | .enum => "enum"
  | .intEnum => "intEnum"

/-- The value given to a member of an enumeration. -/
inductive EnumLiteral where
  | string (text : String)
  | integer (n : Int)
deriving DecidableEq, Repr

/-- A member of an enumeration. -/
structure EnumValue where
  name : String
  value : Option EnumLiteral
  deprecated : Option Deprecation
  location : Location
deriving DecidableEq, Repr

/-- An enumeration. -/
structure EnumType where
  name : String
  kind : EnumKind
  deprecated : Option Deprecation
  values : List EnumValue
  location : Location
deriving DecidableEq, Repr

/-- The model of a document. -/
structure ServiceModel where
  sourcePath : String
  title : String
  majorVersion : Nat
  interfaces : List Interface
  types : List StructureType
  enums : List EnumType
  /-- Unions have a place in the model and are never put there. -/
  unions : List StructureType
deriving DecidableEq, Repr

/-- The model of a text that is no document. -/
def ServiceModel.empty (path : String) (majorVersion : Nat) : ServiceModel :=
  { sourcePath := path, title := "", majorVersion, interfaces := [], types := [], enums := []
    unions := [] }

/-! ## Look-ups -/

namespace ServiceModel

/-- The interface with a name. -/
def interface? (model : ServiceModel) (name : String) : Option Interface :=
  model.interfaces.find? (·.name = name)

/-- The type with a name. -/
def type? (model : ServiceModel) (name : String) : Option StructureType :=
  model.types.find? (·.name = name)

/-- The enumeration with a name. -/
def enum? (model : ServiceModel) (name : String) : Option EnumType :=
  model.enums.find? (·.name = name)

end ServiceModel

namespace Interface

/-- The method with a name. -/
def method? (i : Interface) (name : String) : Option Method := i.methods.find? (·.name = name)

/-- The methods at a path. -/
def httpPath? (i : Interface) (path : String) : Option HttpPath :=
  i.httpPaths.find? (·.path = path)

end Interface

/-- The property with a name. -/
def StructureType.property? (t : StructureType) (name : String) : Option Member :=
  t.properties.find? (·.name = name)

/-- The model of a document and what was found on the way. -/
structure Resolution where
  model : ServiceModel
  diagnostics : List Diagnostic
deriving DecidableEq, Repr

namespace Resolution

/-- The diagnostics that are errors, in their order. -/
def errors (r : Resolution) : List Diagnostic := r.diagnostics.filter Diagnostic.isError

/-- Whether anything that is reported is an error. -/
def hasErrors (r : Resolution) : Bool := r.diagnostics.any Diagnostic.isError

end Resolution

end ServiceIdl
