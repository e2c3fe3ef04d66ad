import ServiceIdl.Decimal.Integer
import ServiceIdl.Text.Blank
import ServiceIdl.Text.Bytes

/-!
# Options

What a caller can choose about a model, and the two rules that turn names and
version texts of services into those of the model.
-/

namespace ServiceIdl

/-- The choices of a caller. -/
structure Options where
  /-- The success code of a binding that has none. -/
  defaultSuccessCode : Nat := 200
  /-- What is taken off the end of service names. -/
  serviceSuffix : String := "Service"
  /-- The major version of a document that has none. -/
  defaultMajorVersion : Nat := 1
deriving DecidableEq, Repr, Inhabited

/-- The name of the interface of a service: without the suffix, if the name ends
in it up to the case of ASCII letters. It may be empty. -/
def Options.interfaceName (options : Options) (service : String) : String :=
  let name := service.toList
  let suffix := options.serviceSuffix.toList
  if Text.byteLength name < Text.byteLength suffix then service
  else
    match Text.cut? (Text.byteLength name - Text.byteLength suffix) name with
    | some (stem, tail) =>
      if tail.map Char.toLower = suffix.map Char.toLower then String.ofList stem else service
    | none => service

/-- The text without one leading `v` of either case. -/
def dropVersionMark : List Char → List Char
  | 'v' :: rest => rest
  | 'V' :: rest => rest
  | text => text

/-- The number at the front of a version text, if it has at most 32 bits. Blanks
around the text and one `v` before the number do not count. -/
def leadingMajorVersion? (version : String) : Option Nat :=
  Decimal.unsigned32? ((dropVersionMark (Text.trim version.toList)).takeWhile Char.isDigit)

end ServiceIdl
