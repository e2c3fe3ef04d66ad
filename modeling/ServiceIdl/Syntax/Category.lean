import ServiceIdl.Syntax.Kind

/-!
# Categories of nodes

A category is what a node is read as. Most categories have one kind of node; the
others gather the alternatives that may stand in one place, such as the kinds of
shape declarations.
-/

namespace ServiceIdl

/-- What a node is read as. -/
inductive Category where
  | idl
  | controlSection
  | controlStatement
  | metadataSection
  | metadataStatement
  | shapeSection
  | namespaceStatement
  | useSection
  | useStatement
  | shapeStatements
  | applyStatement
  | applyBlock
  | shapeStatement
  | shapeDecl
  | mixins
  | forResource
  | simpleShape
  | simpleTypeName
  | enumShape
  | enumTypeName
  | enumShapeMembers
  | enumShapeMember
  | valueAssignment
  | aggregateShape
  | aggregateTypeName
  | shapeMembers
  | shapeMember
  | memberDecl
  | explicitShapeMember
  | elidedShapeMember
  | entityShape
  | entityTypeName
  | operationShape
  | operationBody
  | operationInput
  | operationOutput
  | operationTarget
  | inlineAggregateShape
  | operationErrors
  | traitStatements
  | traitApplication
  | traitName
  | traitBody
  | traitStructure
  | nodeValue
  | nodeValueKind
  | nodeArray
  | nodeObject
  | nodeObjectKvp
  | nodeObjectKey
  | number
  | nodeKeyword
  | nodeStringValue
  | stringValueKind
  | textBlock
  | quotedText
  | identifier
  | namespaceName
  | absoluteRootShapeId
  | shapeId
deriving DecidableEq, Repr

namespace Category

/-- The name of a category, as messages print it. -/
def name : Category → String
  | .idl => "Idl"
  | .controlSection => "ControlSection"
  | .controlStatement => "ControlStatement"
  | .metadataSection => "MetadataSection"
  | .metadataStatement => "MetadataStatement"
  | .shapeSection => "ShapeSection"
  | .namespaceStatement => "NamespaceStatement"
  | .useSection => "UseSection"
  | .useStatement => "UseStatement"
  | .shapeStatements => "ShapeStatements"
  | .applyStatement => "ApplyStatement"
  | .applyBlock => "ApplyBlock"
  | .shapeStatement => "ShapeStatement"
  | .shapeDecl => "ShapeDecl"
  | .mixins => "Mixins"
  | .forResource => "ForResource"
  | .simpleShape => "SimpleShape"
  | .simpleTypeName => "SimpleTypeName"
  | .enumShape => "EnumShape"
  | .enumTypeName => "EnumTypeName"
  | .enumShapeMembers => "EnumShapeMembers"
  | .enumShapeMember => "EnumShapeMember"
  | .valueAssignment => "ValueAssignment"
  | .aggregateShape => "AggregateShape"
  | .aggregateTypeName => "AggregateTypeName"
  | .shapeMembers => "ShapeMembers"
  | .shapeMember => "ShapeMember"
  | .memberDecl => "MemberDecl"
  | .explicitShapeMember => "ExplicitShapeMember"
  | .elidedShapeMember => "ElidedShapeMember"
  | .entityShape => "EntityShape"
  | .entityTypeName => "EntityTypeName"
  | .operationShape => "OperationShape"
  | .operationBody => "OperationBody"
  | .operationInput => "OperationInput"
  | .operationOutput => "OperationOutput"
  | .operationTarget => "OperationTarget"
  | .inlineAggregateShape => "InlineAggregateShape"
  | .operationErrors => "OperationErrors"
  | .traitStatements => "TraitStatements"
  | .traitApplication => "TraitApplication"
  | .traitName => "TraitName"
  | .traitBody => "TraitBody"
  | .traitStructure => "TraitStructure"
  | .nodeValue => "NodeValue"
  | .nodeValueKind => "NodeValueKind"
  | .nodeArray => "NodeArray"
  | .nodeObject => "NodeObject"
  | .nodeObjectKvp => "NodeObjectKvp"
  | .nodeObjectKey => "NodeObjectKey"
  | .number => "Number"
  | .nodeKeyword => "NodeKeyword"
  | .nodeStringValue => "NodeStringValue"
  | .stringValueKind => "StringValueKind"
  | .textBlock => "TextBlock"
  | .quotedText => "QuotedText"
  | .identifier => "Identifier"
  | .namespaceName => "Namespace"
  | .absoluteRootShapeId => "AbsoluteRootShapeId"
  | .shapeId => "ShapeId"

/-- All categories. -/
def all : List Category :=
  [.idl, .controlSection, .controlStatement, .metadataSection, .metadataStatement,
   .shapeSection, .namespaceStatement, .useSection, .useStatement, .shapeStatements,
   .applyStatement, .applyBlock, .shapeStatement, .shapeDecl, .mixins, .forResource,
   .simpleShape, .simpleTypeName, .enumShape, .enumTypeName, .enumShapeMembers,
   .enumShapeMember, .valueAssignment, .aggregateShape, .aggregateTypeName, .shapeMembers,
   .shapeMember, .memberDecl, .explicitShapeMember, .elidedShapeMember, .entityShape,
   .entityTypeName, .operationShape, .operationBody, .operationInput, .operationOutput,
   .operationTarget, .inlineAggregateShape, .operationErrors, .traitStatements,
   .traitApplication, .traitName, .traitBody, .traitStructure, .nodeValue, .nodeValueKind,
   .nodeArray, .nodeObject, .nodeObjectKvp, .nodeObjectKey, .number, .nodeKeyword,
   .nodeStringValue, .stringValueKind, .textBlock, .quotedText, .identifier, .namespaceName,
   .absoluteRootShapeId, .shapeId]

/-- The category with a name. -/
def ofName? (name : String) : Option Category := all.find? (·.name = name)

/-- The kinds of the nodes of a category. -/
def kinds : Category → List Kind
  | .idl => [.idl]
  | .controlSection => [.controlSection]
  | .controlStatement => [.controlStatement]
  | .metadataSection => [.metadataSection]
  | .metadataStatement => [.metadataStatement]
  | .shapeSection => [.shapeSection]
  | .namespaceStatement => [.namespaceStatement]
  | .useSection => [.useSection]
  | .useStatement => [.useStatement]
  | .shapeStatements => [.shapeStatements]
  | .applyStatement => [.applyStatement]
  | .applyBlock => [.applyBlock]
  | .shapeStatement => [.shapeStatement]
  | .shapeDecl => [.simpleShape, .enumShape, .aggregateShape, .entityShape, .operationShape]
  | .mixins => [.mixins]
  | .forResource => [.forResource]
  | .simpleShape => [.simpleShape]
  | .simpleTypeName => [.simpleTypeName]
  | .enumShape => [.enumShape]
  | .enumTypeName => [.enumTypeName]
  | .enumShapeMembers => [.enumShapeMembers]
  | .enumShapeMember => [.enumShapeMember]
  | .valueAssignment => [.valueAssignment]
  | .aggregateShape => [.aggregateShape]
  | .aggregateTypeName => [.aggregateTypeName]
  | .shapeMembers => [.shapeMembers]
  | .shapeMember => [.shapeMember]
  | .memberDecl => [.explicitShapeMember, .elidedShapeMember]
  | .explicitShapeMember => [.explicitShapeMember]
  | .elidedShapeMember => [.elidedShapeMember]
  | .entityShape => [.entityShape]
  | .entityTypeName => [.entityTypeName]
  | .operationShape => [.operationShape]
  | .operationBody => [.operationBody]
  | .operationInput => [.operationInput]
  | .operationOutput => [.operationOutput]
  | .operationTarget => [.inlineAggregateShape, .shapeId]
  | .inlineAggregateShape => [.inlineAggregateShape]
  | .operationErrors => [.operationErrors]
  | .traitStatements => [.traitStatements]
  | .traitApplication => [.traitApplication]
  | .traitName => [.traitName]
  | .traitBody => [.traitBody]
  | .traitStructure => [.traitStructure]
  | .nodeValue => [.nodeValue]
  | .nodeValueKind => [.nodeArray, .nodeObject, .number, .nodeKeyword, .nodeStringValue]
  | .nodeArray => [.nodeArray]
  | .nodeObject => [.nodeObject]
  | .nodeObjectKvp => [.nodeObjectKvp]
  | .nodeObjectKey => [.nodeObjectKey]
  | .number => [.number]
  | .nodeKeyword => [.nodeKeyword]
  | .nodeStringValue => [.nodeStringValue]
  | .stringValueKind => [.textBlock, .quotedText, .shapeId]
  | .textBlock => [.textBlock]
  | .quotedText => [.quotedText]
  | .identifier => [.identifier]
  | .namespaceName => [.namespaceName]
  | .absoluteRootShapeId => [.absoluteRootShapeId]
  | .shapeId => [.shapeId]

end Category

end ServiceIdl
