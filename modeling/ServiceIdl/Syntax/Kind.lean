import ServiceIdl.Grammar.Rule

/-!
# Kinds of syntax nodes

Every rule of the grammar has a kind; the keywords share one. Nodes of the
trivia kinds never enter a tree: what they match becomes text of the node around
them. `Kind.text` is the kind of text itself.
-/

namespace ServiceIdl

/-- The kind of a node or of a piece of text. -/
inductive Kind where
  | whitespace
  | comment
  | keyword
  | identifierStart
  | identifierChars
  | endOfInput
  | fragment
  | text
  | idl
  | controlSection
  | controlStatement
  | metadataSection
  | metadataStatement
  | shapeSection
  | namespaceStatement
  | useSection
  | useStatement
  | shapeStatements
  | applyStatement
  | applyBlock
  | shapeStatement
  | mixins
  | forResource
  | simpleShape
  | simpleTypeName
  | enumShape
  | enumTypeName
  | enumShapeMembers
  | enumShapeMember
  | valueAssignment
  | aggregateShape
  | aggregateTypeName
  | shapeMembers
  | shapeMember
  | explicitShapeMember
  | elidedShapeMember
  | entityShape
  | entityTypeName
  | operationShape
  | operationBody
  | operationInput
  | operationOutput
  | inlineAggregateShape
  | operationErrors
  | traitStatements
  | traitApplication
  | traitName
  | traitBody
  | traitStructure
  | nodeValue
  | nodeArray
  | nodeObject
  | nodeObjectKvp
  | nodeObjectKey
  | number
  | nodeKeyword
  | nodeStringValue
  | textBlock
  | quotedText
  | identifier
  | namespaceName
  | absoluteRootShapeId
  | shapeId
deriving DecidableEq, Repr

namespace Kind

/-- The name of a kind, as messages and listings print it. -/
def name : Kind → String
  | .whitespace => "WHITESPACE"
  | .comment => "COMMENT"
  | .keyword => "KEYWORD"
  | .identifierStart => "IDENT_START"
  | .identifierChars => "IDENT_CHARS"
  | .endOfInput => "EOI"
  | .fragment => "FRAGMENT"
  | .text => "TEXT"
  | .idl => "IDL"
  | .controlSection => "CONTROL_SECTION"
  | .controlStatement => "CONTROL_STATEMENT"
  | .metadataSection => "METADATA_SECTION"
  | .metadataStatement => "METADATA_STATEMENT"
  | .shapeSection => "SHAPE_SECTION"
  | .namespaceStatement => "NAMESPACE_STATEMENT"
  | .useSection => "USE_SECTION"
  | .useStatement => "USE_STATEMENT"
  | .shapeStatements => "SHAPE_STATEMENTS"
  | .applyStatement => "APPLY_STATEMENT"
  | .applyBlock => "APPLY_BLOCK"
  | .shapeStatement => "SHAPE_STATEMENT"
  | .mixins => "MIXINS"
  | .forResource => "FOR_RESOURCE"
  | .simpleShape => "SIMPLE_SHAPE"
  | .simpleTypeName => "SIMPLE_TYPE_NAME"
  | .enumShape => "ENUM_SHAPE"
  | .enumTypeName => "ENUM_TYPE_NAME"
  | .enumShapeMembers => "ENUM_SHAPE_MEMBERS"
  | .enumShapeMember => "ENUM_SHAPE_MEMBER"
  | .valueAssignment => "VALUE_ASSIGNMENT"
  | .aggregateShape => "AGGREGATE_SHAPE"
  | .aggregateTypeName => "AGGREGATE_TYPE_NAME"
  | .shapeMembers => "SHAPE_MEMBERS"
  | .shapeMember => "SHAPE_MEMBER"
  | .explicitShapeMember => "EXPLICIT_SHAPE_MEMBER"
  | .elidedShapeMember => "ELIDED_SHAPE_MEMBER"
  | .entityShape => "ENTITY_SHAPE"
  | .entityTypeName => "ENTITY_TYPE_NAME"
  | .operationShape => "OPERATION_SHAPE"
  | .operationBody => "OPERATION_BODY"
  | .operationInput => "OPERATION_INPUT"
  | .operationOutput => "OPERATION_OUTPUT"
  | .inlineAggregateShape => "INLINE_AGGREGATE_SHAPE"
  | .operationErrors => "OPERATION_ERRORS"
  | .traitStatements => "TRAIT_STATEMENTS"
  | .traitApplication => "TRAIT_APPLICATION"
  | .traitName => "TRAIT_NAME"
  | .traitBody => "TRAIT_BODY"
  | .traitStructure => "TRAIT_STRUCTURE"
  | .nodeValue => "NODE_VALUE"
  | .nodeArray => "NODE_ARRAY"
  | .nodeObject => "NODE_OBJECT"
  | .nodeObjectKvp => "NODE_OBJECT_KVP"
  | .nodeObjectKey => "NODE_OBJECT_KEY"
  | .number => "NUMBER"
  | .nodeKeyword => "NODE_KEYWORD"
  | .nodeStringValue => "NODE_STRING_VALUE"
  | .textBlock => "TEXT_BLOCK"
  | .quotedText => "QUOTED_TEXT"
  | .identifier => "IDENTIFIER"
  | .namespaceName => "NAMESPACE"
  | .absoluteRootShapeId => "ABSOLUTE_ROOT_SHAPE_ID"
  | .shapeId => "SHAPE_ID"

/-- All kinds. -/
def all : List Kind :=
  [.whitespace, .comment, .keyword, .identifierStart, .identifierChars, .endOfInput, .fragment,
   .text, .idl, .controlSection, .controlStatement, .metadataSection, .metadataStatement,
   .shapeSection, .namespaceStatement, .useSection, .useStatement, .shapeStatements,
   .applyStatement, .applyBlock, .shapeStatement, .mixins, .forResource, .simpleShape,
   .simpleTypeName, .enumShape, .enumTypeName, .enumShapeMembers, .enumShapeMember,
   .valueAssignment, .aggregateShape, .aggregateTypeName, .shapeMembers, .shapeMember,
   .explicitShapeMember, .elidedShapeMember, .entityShape, .entityTypeName, .operationShape,
   .operationBody, .operationInput, .operationOutput, .inlineAggregateShape, .operationErrors,
   .traitStatements, .traitApplication, .traitName, .traitBody, .traitStructure, .nodeValue,
   .nodeArray, .nodeObject, .nodeObjectKvp, .nodeObjectKey, .number, .nodeKeyword,
   .nodeStringValue, .textBlock, .quotedText, .identifier, .namespaceName, .absoluteRootShapeId,
   .shapeId]

/-- The kind with a name. -/
def ofName? (name : String) : Option Kind := all.find? (·.name = name)

/-- The kinds of blanks, comments, keywords and parts of names. -/
def trivia : List Kind :=
  [.whitespace, .comment, .keyword, .identifierStart, .identifierChars, .endOfInput, .fragment]

/-- Whether nodes of this kind stay out of trees. -/
def isTrivia (kind : Kind) : Bool := trivia.contains kind

/-- The kind of the nodes that a rule makes. -/
def ofRule : Rule → Kind
  | .endOfInput => .endOfInput
  | .idl => .idl
  | .whitespace => .whitespace
  | .comment => .comment
  | .identifier => .identifier
  | .identifierStart => .identifierStart
  | .identifierChars => .identifierChars
  | .namespaceName => .namespaceName
  | .absoluteRootShapeId => .absoluteRootShapeId
  | .shapeId => .shapeId
  | .controlSection => .controlSection
  | .controlStatement => .controlStatement
  | .metadataSection => .metadataSection
  | .metadataStatement => .metadataStatement
  | .shapeSection => .shapeSection
  | .namespaceStatement => .namespaceStatement
  | .useSection => .useSection
  | .useStatement => .useStatement
  | .shapeStatements => .shapeStatements
  | .applyStatement => .applyStatement
  | .applyBlock => .applyBlock
  | .shapeStatement => .shapeStatement
  | .mixins => .mixins
  | .forResource => .forResource
  | .simpleShape => .simpleShape
  | .simpleTypeName => .simpleTypeName
  | .enumShape => .enumShape
  | .enumTypeName => .enumTypeName
  | .enumShapeMembers => .enumShapeMembers
  | .enumShapeMember => .enumShapeMember
  | .valueAssignment => .valueAssignment
  | .aggregateShape => .aggregateShape
  | .aggregateTypeName => .aggregateTypeName
  | .shapeMembers => .shapeMembers
  | .shapeMember => .shapeMember
  | .explicitShapeMember => .explicitShapeMember
  | .elidedShapeMember => .elidedShapeMember
  | .entityShape => .entityShape
  | .entityTypeName => .entityTypeName
  | .operationShape => .operationShape
  | .operationBody => .operationBody
  | .operationInput => .operationInput
  | .operationOutput => .operationOutput
  | .inlineAggregateShape => .inlineAggregateShape
  | .operationErrors => .operationErrors
  | .traitStatements => .traitStatements
  | .traitApplication => .traitApplication
  | .traitName => .traitName
  | .traitBody => .traitBody
  | .traitStructure => .traitStructure
  | .nodeValue => .nodeValue
  | .nodeArray => .nodeArray
  | .nodeObject => .nodeObject
  | .nodeObjectKvp => .nodeObjectKvp
  | .nodeObjectKey => .nodeObjectKey
  | .number => .number
  | .nodeKeyword => .nodeKeyword
  | .nodeStringValue => .nodeStringValue
  | .textBlock => .textBlock
  | .quotedText => .quotedText
  | .keywordNamespace
  | .keywordUse
  | .keywordMetadata
  | .keywordApply
  | .keywordWith
  | .keywordFor
  | .keywordOperation => .keyword

end Kind

end ServiceIdl
