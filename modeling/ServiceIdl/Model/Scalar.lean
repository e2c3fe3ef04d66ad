import ServiceIdl.Grammar.Table
import ServiceIdl.Shape.Trait

/-!
# Scalars

Two closed tables map type names of the language to scalars: the keywords of
simple types, and the capitalised names of the prelude. Some further names can
only mean a type of the prelude although no table has them.
-/

namespace ServiceIdl

/-- The type of a primitive member. -/
inductive Scalar where
  | string
  | boolean
  | integer
  | long
  | float
  | double
  | binary
  | number
  | dateTime
deriving DecidableEq, Repr

namespace Scalar

/-- The scalar as it is printed in a model. -/
def name : Scalar → String
  | .string => "string"
  | .boolean => "boolean"
  | .integer => "integer"
  | .long => "long"
  | .float => "float"
  | .double => "double"
  | .binary => "binary"
  | .number => "number"
  | .dateTime => "date-time"

/-- Whether a name is a keyword of a simple type. -/
def isKeyword (name : String) : Bool := Rule.simpleTypeWords.contains name

/-- The scalar of a keyword. Documents have none. -/
def ofKeyword? : String → Option Scalar
  | "string" => some .string
  | "boolean" => some .boolean
  | "integer" => some .integer
  | "long" => some .long
  | "float" => some .float
  | "short" => some .float
  | "double" => some .double
  | "blob" => some .binary
  | "byte" => some .number
  | "bigDecimal" => some .number
  | "bigInteger" => some .long
  | "timestamp" => some .dateTime
  | _ => none

/-- The scalar of a bare name of the prelude. -/
def ofPreludeName? : String → Option Scalar
  | "Boolean" => some .boolean
  | "String" => some .string
  | "Integer" => some .number
  | "Long" => some .long
  | "Float" => some .float
  | "Short" => some .float
  | "Double" => some .double
  | "Byte" => some .integer
  | "BigInteger" => some .long
  | "BigDecimal" => some .double
  | "Timestamp" => some .dateTime
  | "Blob" => some .binary
  | _ => none

/-- The scalar of a name of the prelude, with or without its namespace. -/
def ofWrapper? (name : String) : Option Scalar :=
  ofPreludeName? ((withoutPrelude? name).getD name)

/-- Names of the prelude that no table has. -/
def preludeBuiltins : List String :=
  ["Document", "Unit", "PrimitiveBoolean", "PrimitiveByte", "PrimitiveShort",
   "PrimitiveInteger", "PrimitiveLong", "PrimitiveFloat", "PrimitiveDouble"]

/-- Whether a name can only mean a type of the prelude. -/
def isExpectedPrimitive (name : String) : Bool :=
  (withoutPrelude? name).isSome || preludeBuiltins.contains name

end Scalar

end ServiceIdl
