import ServiceIdl.Syntax.Application

/-!
# Shape declarations

The declarations of simple shapes, enumerations, aggregates (lists, maps, unions
and structures), entities (services and resources) and operations, and the
members of those that have any.
-/

namespace ServiceIdl

/-- A shape with the traits in front of it. -/
abbrev ShapeStatement := View .shapeStatement

/-- The declaration of a shape of any kind. -/
abbrev ShapeDecl := View .shapeDecl

/-- The clause `with [A, B]`. -/
abbrev Mixins := View .mixins

/-- The clause `for A`. -/
abbrev ForResource := View .forResource

/-- A shape such as `string A`. -/
abbrev SimpleShape := View .simpleShape

/-- The keyword of a simple shape. -/
abbrev SimpleTypeName := View .simpleTypeName

/-- A shape such as `enum A { B = "b" }`. -/
abbrev EnumShape := View .enumShape

/-- The keyword of an enumeration, `enum` or `intEnum`. -/
abbrev EnumTypeName := View .enumTypeName

/-- What stands in braces behind the name of an enumeration. -/
abbrev EnumShapeMembers := View .enumShapeMembers

/-- A member of an enumeration, with the traits in front of it. -/
abbrev EnumShapeMember := View .enumShapeMember

/-- An equals sign with a value behind it. -/
abbrev ValueAssignment := View .valueAssignment

/-- A structure, a list, a map or a union. -/
abbrev AggregateShape := View .aggregateShape

/-- The keyword of an aggregate. -/
abbrev AggregateTypeName := View .aggregateTypeName

/-- What stands in braces behind the name of an aggregate. -/
abbrev ShapeMembers := View .shapeMembers

/-- A member of an aggregate, with the traits in front of it. -/
abbrev ShapeMember := View .shapeMember

/-- A member without its traits. -/
abbrev MemberDecl := View .memberDecl

/-- A member such as `a: B`. -/
abbrev ExplicitShapeMember := View .explicitShapeMember

/-- A member such as `$a`. -/
abbrev ElidedShapeMember := View .elidedShapeMember

/-- A service or a resource. -/
abbrev EntityShape := View .entityShape

/-- The keyword of an entity. -/
abbrev EntityTypeName := View .entityTypeName

/-- A shape such as `operation A { input: B }`. -/
abbrev OperationShape := View .operationShape

/-- What stands in braces behind the name of an operation. -/
abbrev OperationBody := View .operationBody

/-- An entry `input` of an operation, with the traits in front of it. -/
abbrev OperationInput := View .operationInput

/-- An entry `output` of an operation, with the traits in front of it. -/
abbrev OperationOutput := View .operationOutput

/-- What an input or an output is: an id, or a structure written in place. -/
abbrev OperationTarget := View .operationTarget

/-- A structure without a name, such as `:= { a: B }`. -/
abbrev InlineAggregateShape := View .inlineAggregateShape

/-- An entry `errors` of an operation. -/
abbrev OperationErrors := View .operationErrors

/-! ## Statements and declarations -/

namespace ShapeStatement

/-- The traits in front of the shape. -/
def traits (statement : ShapeStatement) : Except Defect TraitStatements :=
  statement.required .traitStatements

/-- The shape behind the traits. -/
def shape (statement : ShapeStatement) : Except Defect ShapeDecl :=
  statement.required .shapeDecl

end ShapeStatement

namespace ShapeDecl

/-- The kinds of shape declarations. -/
inductive Form where
  | simple (shape : SimpleShape)
  | enum (shape : EnumShape)
  | aggregate (shape : AggregateShape)
  | entity (shape : EntityShape)
  | operation (shape : OperationShape)

/-- Which kind of declaration this is. -/
def form (decl : ShapeDecl) : Form :=
  if simple : decl.tree.kind = .simpleShape then
    .simple ⟨decl.tree, by simp [simple, Category.kinds]⟩
  else if enum : decl.tree.kind = .enumShape then
    .enum ⟨decl.tree, by simp [enum, Category.kinds]⟩
  else if aggregate : decl.tree.kind = .aggregateShape then
    .aggregate ⟨decl.tree, by simp [aggregate, Category.kinds]⟩
  else if entity : decl.tree.kind = .entityShape then
    .entity ⟨decl.tree, by simp [entity, Category.kinds]⟩
  else .operation ⟨decl.tree, by have := decl.accepted; simp_all [Category.kinds]⟩

/-- The name that the declaration gives. -/
def name (decl : ShapeDecl) : Except Defect Identifier := decl.required .identifier

/-- The mixins of the declaration, if it has the clause. -/
def mixins (decl : ShapeDecl) : Option Mixins := decl.optional .mixins

end ShapeDecl

/-- The ids listed in a `with` clause. -/
def Mixins.targets (mixins : Mixins) : List ShapeId := mixins.many .shapeId

/-- The id of the resource. -/
def ForResource.target (resource : ForResource) : Except Defect ShapeId :=
  resource.required .shapeId

/-- The value behind the equals sign. -/
def ValueAssignment.value (assignment : ValueAssignment) : Except Defect NodeValue :=
  assignment.required .nodeValue

/-! ## Simple shapes and enumerations -/

namespace SimpleShape

/-- The keyword of the shape. -/
def typeName (shape : SimpleShape) : Except Defect SimpleTypeName :=
  shape.required .simpleTypeName

def name (shape : SimpleShape) : Except Defect Identifier := shape.required .identifier

end SimpleShape

namespace EnumShape

def typeName (shape : EnumShape) : Except Defect EnumTypeName := shape.required .enumTypeName

def name (shape : EnumShape) : Except Defect Identifier := shape.required .identifier

/-- The part with the members. -/
def members (shape : EnumShape) : Except Defect EnumShapeMembers :=
  shape.required .enumShapeMembers

end EnumShape

/-- The members of the enumeration, in the order of the document. -/
def EnumShapeMembers.members (members : EnumShapeMembers) : List EnumShapeMember :=
  members.many .enumShapeMember

namespace EnumShapeMember

/-- The traits in front of the member. -/
def traits (member : EnumShapeMember) : Except Defect TraitStatements :=
  member.required .traitStatements

/-- The name of the member. -/
def name (member : EnumShapeMember) : Except Defect Identifier := member.required .identifier

/-- The assignment behind the name, if there is one. -/
def value (member : EnumShapeMember) : Option ValueAssignment :=
  member.optional .valueAssignment

end EnumShapeMember

/-! ## Aggregates and their members -/

namespace AggregateShape

def typeName (shape : AggregateShape) : Except Defect AggregateTypeName :=
  shape.required .aggregateTypeName

def name (shape : AggregateShape) : Except Defect Identifier := shape.required .identifier

/-- The clause with the resource, if there is one. -/
def forResource (shape : AggregateShape) : Option ForResource := shape.optional .forResource

/-- The clause with the mixins, if there is one. -/
def mixins (shape : AggregateShape) : Option Mixins := shape.optional .mixins

/-- The part with the members. -/
def members (shape : AggregateShape) : Except Defect ShapeMembers :=
  shape.required .shapeMembers

end AggregateShape

/-- The members of the aggregate, in the order of the document. -/
def ShapeMembers.members (members : ShapeMembers) : List ShapeMember :=
  members.many .shapeMember

namespace ShapeMember

/-- The traits in front of the member. -/
def traits (member : ShapeMember) : Except Defect TraitStatements :=
  member.required .traitStatements

/-- The member without its traits. -/
def decl (member : ShapeMember) : Except Defect MemberDecl := member.required .memberDecl

/-- The assignment behind the member, if there is one. -/
def value (member : ShapeMember) : Option ValueAssignment := member.optional .valueAssignment

end ShapeMember

namespace MemberDecl

/-- A member with a target of its own, or one that takes over a mixin's. -/
inductive Form where
  | explicit (member : ExplicitShapeMember)
  | elided (member : ElidedShapeMember)

/-- Which kind of member this is. -/
def form (decl : MemberDecl) : Form :=
  if explicit : decl.tree.kind = .explicitShapeMember then
    .explicit ⟨decl.tree, by simp [explicit, Category.kinds]⟩
  else .elided ⟨decl.tree, by have := decl.accepted; simp_all [Category.kinds]⟩

/-- The name of the member, which stands in front of the colon or behind the dollar sign. -/
def name (decl : MemberDecl) : Except Defect Identifier := decl.required .identifier

end MemberDecl

namespace ExplicitShapeMember

/-- The name in front of the colon. -/
def name (member : ExplicitShapeMember) : Except Defect Identifier :=
  member.required .identifier

/-- The id behind the colon. -/
def target (member : ExplicitShapeMember) : Except Defect ShapeId := member.required .shapeId

end ExplicitShapeMember

/-- The name behind the dollar sign. -/
def ElidedShapeMember.name (member : ElidedShapeMember) : Except Defect Identifier :=
  member.required .identifier

/-! ## Entities and operations -/

namespace EntityShape

/-- The keyword of the entity. -/
def typeName (shape : EntityShape) : Except Defect EntityTypeName :=
  shape.required .entityTypeName

def name (shape : EntityShape) : Except Defect Identifier := shape.required .identifier

/-- The entries of the entity. -/
def body (shape : EntityShape) : Except Defect NodeObject := shape.required .nodeObject

end EntityShape

namespace OperationShape

def name (shape : OperationShape) : Except Defect Identifier := shape.required .identifier

/-- The part with the entries. -/
def body (shape : OperationShape) : Except Defect OperationBody :=
  shape.required .operationBody

end OperationShape

namespace OperationBody

/-- The first input. -/
def input (body : OperationBody) : Option OperationInput := body.optional .operationInput

/-- The first output. -/
def output (body : OperationBody) : Option OperationOutput := body.optional .operationOutput

/-- The first list of errors. -/
def errors (body : OperationBody) : Option OperationErrors := body.optional .operationErrors

end OperationBody

namespace OperationInput

/-- The traits in front of the input. -/
def traits (input : OperationInput) : Except Defect TraitStatements :=
  input.required .traitStatements

/-- What the input is. -/
def target (input : OperationInput) : Except Defect OperationTarget :=
  input.required .operationTarget

end OperationInput

namespace OperationOutput

/-- The traits in front of the output. -/
def traits (output : OperationOutput) : Except Defect TraitStatements :=
  output.required .traitStatements

/-- What the output is. -/
def target (output : OperationOutput) : Except Defect OperationTarget :=
  output.required .operationTarget

end OperationOutput

namespace OperationTarget

/-- A structure written in place, or the id of one. -/
inductive Form where
  | inline (shape : InlineAggregateShape)
  | named (id : ShapeId)

/-- Which kind of target this is. -/
def form (target : OperationTarget) : Form :=
  if inline : target.tree.kind = .inlineAggregateShape then
    .inline ⟨target.tree, by simp [inline, Category.kinds]⟩
  else .named ⟨target.tree, by have := target.accepted; simp_all [Category.kinds]⟩

end OperationTarget

namespace InlineAggregateShape

def traits (shape : InlineAggregateShape) : Except Defect TraitStatements :=
  shape.required .traitStatements

def members (shape : InlineAggregateShape) : Except Defect ShapeMembers :=
  shape.required .shapeMembers

end InlineAggregateShape

def OperationErrors.errors (errors : OperationErrors) : List ShapeId := errors.many .shapeId

end ServiceIdl
