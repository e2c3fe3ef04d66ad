import ServiceIdl.Grammar.Recognition
import ServiceIdl.Text.Bytes

/-!
# Findings

What can be wrong with a document, or left out of its model. Each finding has a
stable code, a message and a severity. None of them stops the resolution.
-/

namespace ServiceIdl

/-- How much a finding matters. -/
inductive Severity where
  /-- Information of the document is missing from the model. -/
  | error
  /-- A notice. -/
  | info
deriving DecidableEq, Repr

/-- The severity as it is printed. -/
def Severity.name : Severity → String
  | .error => "error"
  | .info => "info"

/-- The stable codes of findings. -/
inductive Code where
  | syntaxError
  | operationNotDefined
  | unsupportedHttpVerb
  | unsupportedFeature
  | unknownReturnType
  | unexpectedElision
  | missingListMember
  | unknownTrait
  | unsupportedSimpleType
  | unknownPrimitive
deriving DecidableEq, Repr

namespace Code

/-- The code as it is printed, in brackets behind the severity. -/
def name : Code → String
  | .syntaxError => "syntax-error"
  | .operationNotDefined => "operation-not-defined"
  | .unsupportedHttpVerb => "unsupported-http-verb"
  | .unsupportedFeature => "unsupported-feature"
  | .unknownReturnType => "unknown-return-type"
  | .unexpectedElision => "unexpected-elision"
  | .missingListMember => "missing-list-member"
  | .unknownTrait => "unknown-trait"
  | .unsupportedSimpleType => "unsupported-simple-type"
  | .unknownPrimitive => "unknown-primitive"

/-- All codes, in the order of their declaration. -/
def all : List Code :=
  [.syntaxError, .operationNotDefined, .unsupportedHttpVerb, .unsupportedFeature,
   .unknownReturnType, .unexpectedElision, .missingListMember, .unknownTrait,
   .unsupportedSimpleType, .unknownPrimitive]

/-- The code with a name. -/
def ofName? (name : String) : Option Code := all.find? (·.name = name)

theorem ofName?_name (c : Code) : ofName? c.name = some c := by cases c <;> rfl

/-- The severity of all findings with a code. -/
def severity : Code → Severity
  | .unsupportedFeature => .info
  | .unknownTrait => .info
  | _ => .error

end Code

/-- The two ends of an operation. -/
inductive Role where
  | input
  | output
deriving DecidableEq, Repr

/-- The role as messages call it. -/
def Role.name : Role → String
  | .input => "input"
  | .output => "output"

/-- What is wrong with a document, or left out of its model. -/
inductive Finding where
  /-- The text is no document. -/
  | rejected (rejection : Rejection)
  | operationNotDefined (id service : String)
  | unsupportedVerb (verb operation : String)
  /-- Traits are applied from outside a declaration. -/
  | applied (target : String)
  /-- An operation has a structure written in place. -/
  | inline (role : Role) (operation : String)
  | unknownReturnType (id operation : String)
  | unexpectedElision (member : String)
  | missingListMember (list : String)
  | unknownTrait (id : String)
  | unsupportedSimpleType (keyword : String)
  | unknownPrimitive (id : String)
deriving DecidableEq, Repr

namespace Finding

/-- The code under which the finding is reported; several kinds of findings may share one. -/
def code : Finding → Code
  | .rejected _ => .syntaxError
  | .operationNotDefined .. => .operationNotDefined
  | .unsupportedVerb .. => .unsupportedHttpVerb
  | .applied _ => .unsupportedFeature
  | .inline .. => .unsupportedFeature
  | .unknownReturnType .. => .unknownReturnType
  | .unexpectedElision _ => .unexpectedElision
  | .missingListMember _ => .missingListMember
  | .unknownTrait _ => .unknownTrait
  | .unsupportedSimpleType _ => .unsupportedSimpleType
  | .unknownPrimitive _ => .unknownPrimitive

/-- What the diagnostic of the finding says. Names that it is about stand between grave accents. -/
def message : Finding → String
  | .rejected rejection => rejection.message
  | .operationNotDefined id service =>
    "operation `" ++ id ++ "` listed by service `" ++ service ++ "` is not defined"
  | .unsupportedVerb verb operation =>
    "HTTP verb `" ++ verb ++ "` of operation `" ++ operation ++ "` is not supported, using GET"
  | .applied target => "`apply` to `" ++ target ++ "` is not supported and is ignored"
  | .inline role operation =>
    "inline " ++ role.name ++ " of operation `" ++ operation
      ++ "` is not supported and is ignored"
  | .unknownReturnType id operation =>
    "output `" ++ id ++ "` of operation `" ++ operation ++ "` is not a known structure"
  | .unexpectedElision member =>
    "elided member `$" ++ member ++ "` does not match a member of any mixin"
  | .missingListMember list => "list `" ++ list ++ "` declares no member"
  | .unknownTrait id => "trait `" ++ id ++ "` is not translated into a validation rule"
  | .unsupportedSimpleType keyword =>
    "simple type `" ++ keyword ++ "` is not supported, using string"
  | .unknownPrimitive id => "`" ++ id ++ "` is not a known primitive type, using string"

end Finding

/-- A finding at a place of the document. -/
structure Report where
  finding : Finding
  span : Span
deriving DecidableEq, Repr

end ServiceIdl
