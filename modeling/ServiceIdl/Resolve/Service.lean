import ServiceIdl.Model.Options
import ServiceIdl.Resolve.Operation

/-!
# Services

A service lists its operations in the array `operations` of its body, as ids or
as texts. Listed operations that the document has become methods, in the order
of the list and as often as they are listed; the others are reported. The first
service of a document also gives the model its title and version.
-/

namespace ServiceIdl

/-- What a service says about the whole model. -/
structure ServiceHeader where
  interface : String
  title : Option String
  version : Option String

/-- The id that an element of a list of operations gives. -/
def operationId? : Value → Option String
  | .shapeId id => some id
  | .string text => some text
  | _ => none

namespace ShapeIndex

/-- The operation that an element of a service's list names. -/
def resolveListing (index : ShapeIndex) (service : String) (element : NodeValue) :
    Reporting (Option ShapeRecord) := do
  match operationId? (← Value.ofNode element) with
  | none => return none
  | some id =>
    match index.find? .operation id with
    | some record => return some record
    | none => Reporting.noting none [⟨.operationNotDefined id service, element.span⟩]

/-- The operations that the body of a service lists. -/
def resolveListings (index : ShapeIndex) (service : String) (body : NodeObject) :
    Reporting (List ShapeRecord) := do
  match ← NodeObject.get? body "operations" with
  | none => return []
  | some listing =>
    match NodeValueKind.form (← NodeValue.content listing) with
    | .array elements =>
      let records ← (NodeArray.values elements).mapM (index.resolveListing service)
      return records.filterMap id
    | _ => return []

/-- The version that the body of a service gives. -/
def versionOf (body : NodeObject) : Except Defect (Option String) := do
  match ← NodeObject.get? body "version" with
  | none => return none
  | some value => return (← Value.ofNode value).string?

/-- The title of a service, if its last `title` trait is a text. -/
def titleOf? (index : ShapeIndex) (service : String) : Option String :=
  ((Trait.find? (index.traitsOf service) "title").bind Trait.value?).bind Value.string?

/-- The bindings of operations, by their names. -/
def bindings (index : ShapeIndex) (operations : List ShapeRecord) :
    List (String × HttpBinding) :=
  operations.filterMap fun record =>
    (HttpBinding.ofTraits? (index.traitsOf record.name)).map fun binding =>
      (record.name, binding)

/-- The operations that a service lists, and its version. -/
def resolveBody (index : ShapeIndex) (service : String) (shape : EntityShape) :
    Reporting (List ShapeRecord × Option String) := do
  let body ← EntityShape.body shape
  let operations ← index.resolveListings service body
  let version ← versionOf body
  return (operations, version)

/-- The interface of a model for a service, and what the service says about the
model. -/
def resolveService (index : ShapeIndex) (lines : LineIndex) (options : Options)
    (record : ShapeRecord) : Reporting (Interface × ServiceHeader) := do
  let name := options.interfaceName record.name
  let (operations, version) ←
    match record.entity? with
    | none => pure ([], none)
    | some shape => index.resolveBody record.name shape
  let bindings := index.bindings operations
  let paths := bindings.foldl
    (fun paths (operation, binding) =>
      HttpPaths.add paths lines options.defaultSuccessCode operation binding)
    Table.empty
  Reporting.noting () (bindings.flatMap fun (operation, binding) => binding.reports operation)
  let methods ← operations.mapM (index.resolveMethod lines)
  return (
    { name, httpPaths := HttpPaths.toList paths, methods, location := lines.locate record.span },
    { interface := name, title := index.titleOf? record.name, version })

end ShapeIndex

end ServiceIdl
