import ServiceIdl.Resolve.Declared

/-!
# Operations

The parameters of a method are the members of the structure that the operation's
input names, and its return type is the structure that the output names. A
structure written in place is reported and left out; so is an output that names
no structure of the document.
-/

namespace ServiceIdl.ShapeIndex

/-- The parameters of an operation. -/
def resolveInput (index : ShapeIndex) (lines : LineIndex) (operation : String)
    (input : OperationInput) : Reporting (List Member) := do
  match OperationTarget.form (← OperationInput.target input) with
  | .inline shape => Reporting.noting [] [⟨.inline .input operation, shape.span⟩]
  | .named id =>
    match index.find? .structureShape id.text with
    | some record => index.resolveMembers lines record
    | none => return []

/-- The return type of an operation. Its constraints come from the structure and
then from the traits of the output. -/
def resolveOutput (index : ShapeIndex) (lines : LineIndex) (operation : String)
    (output : OperationOutput) : Reporting (Option ReturnType) := do
  match OperationTarget.form (← OperationOutput.target output) with
  | .inline shape => Reporting.noting none [⟨.inline .output operation, shape.span⟩]
  | .named id =>
    let own ← Trait.ofStatements (← OperationOutput.traits output)
    match index.find? .structureShape id.text with
    | none => Reporting.noting none [⟨.unknownReturnType id.text operation, id.span⟩]
    | some record =>
      let traits := index.traitsOf record.name ++ own
      Reporting.noting
        (some { typeName := record.name
                rules := Constraint.ofTraits traits
                location := lines.locate id.span })
        (Constraint.reports traits)

/-- The parameters of an operation: the members of its input, if it has one. -/
def resolveParameters (index : ShapeIndex) (lines : LineIndex) (operation : String)
    (body : OperationBody) : Reporting (List Member) :=
  match OperationBody.input body with
  | none => pure []
  | some input => index.resolveInput lines operation input

/-- The return type of an operation: the type of its output, if it has one. -/
def resolveReturnType (index : ShapeIndex) (lines : LineIndex) (operation : String)
    (body : OperationBody) : Reporting (Option ReturnType) :=
  match OperationBody.output body with
  | none => pure none
  | some output => index.resolveOutput lines operation output

/-- The parameters and the return type of an operation. -/
def resolveSignature (index : ShapeIndex) (lines : LineIndex) (operation : String)
    (shape : OperationShape) : Reporting (List Member × Option ReturnType) := do
  let body ← OperationShape.body shape
  let parameters ← index.resolveParameters lines operation body
  let returnType ← index.resolveReturnType lines operation body
  return (parameters, returnType)

/-- The method of a model for an operation. -/
def resolveMethod (index : ShapeIndex) (lines : LineIndex) (record : ShapeRecord) :
    Reporting Method := do
  let (parameters, returnType) ←
    match record.operation? with
    | none => pure ([], none)
    | some shape => index.resolveSignature lines record.name shape
  return {
    name := record.name
    deprecated := Deprecation.ofTraits? lines (index.traitsOf record.name)
    parameters
    returnType
    location := lines.locate record.span }

end ServiceIdl.ShapeIndex
