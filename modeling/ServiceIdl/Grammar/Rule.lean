/-!
# The rules of the document grammar

The rules in the order in which failures list them: the end of the document
first, then from the document down to its words.
-/

namespace ServiceIdl

/-- A rule of the document grammar. -/
inductive Rule where
  | endOfInput
  | idl
  | whitespace
  | comment
  | identifier
  | identifierStart
  | identifierChars
  | namespaceName
  | absoluteRootShapeId
  | shapeId
  | keywordNamespace
  | keywordUse
  | keywordMetadata
  | keywordApply
  | keywordWith
  | keywordFor
  | keywordOperation
  | controlSection
  | controlStatement
  | metadataSection
  | metadataStatement
  | shapeSection
  | namespaceStatement
  | useSection
  | useStatement
  | shapeStatements
  | applyStatement
  | applyBlock
  | shapeStatement
  | mixins
  | forResource
  | simpleShape
  | simpleTypeName
  | enumShape
  | enumTypeName
  | enumShapeMembers
  | enumShapeMember
  | valueAssignment
  | aggregateShape
  | aggregateTypeName
  | shapeMembers
  | shapeMember
  | explicitShapeMember
  | elidedShapeMember
  | entityShape
  | entityTypeName
  | operationShape
  | operationBody
  | operationInput
  | operationOutput
  | inlineAggregateShape
  | operationErrors
  | traitStatements
  | traitApplication
  | traitName
  | traitBody
  | traitStructure
  | nodeValue
  | nodeArray
  | nodeObject
  | nodeObjectKvp
  | nodeObjectKey
  | number
  | nodeKeyword
  | nodeStringValue
  | textBlock
  | quotedText
deriving DecidableEq, Repr

namespace Rule

/-- The name of a rule, as messages print it. -/
def name : Rule → String
  | .endOfInput => "EOI"
  | .idl => "idl"
  | .whitespace => "WHITESPACE"
  | .comment => "COMMENT"
  | .identifier => "identifier"
  | .identifierStart => "identifier_start"
  | .identifierChars => "identifier_chars"
  | .namespaceName => "namespace"
  | .absoluteRootShapeId => "absolute_root_shape_id"
  | .shapeId => "shape_id"
  | .keywordNamespace => "kw_namespace"
  | .keywordUse => "kw_use"
  | .keywordMetadata => "kw_metadata"
  | .keywordApply => "kw_apply"
  | .keywordWith => "kw_with"
  | .keywordFor => "kw_for"
  | .keywordOperation => "kw_operation"
  | .controlSection => "control_section"
  | .controlStatement => "control_statement"
  | .metadataSection => "metadata_section"
  | .metadataStatement => "metadata_statement"
  | .shapeSection => "shape_section"
  | .namespaceStatement => "namespace_statement"
  | .useSection => "use_section"
  | .useStatement => "use_statement"
  | .shapeStatements => "shape_statements"
  | .applyStatement => "apply_statement"
  | .applyBlock => "apply_block"
  | .shapeStatement => "shape_statement"
  | .mixins => "mixins"
  | .forResource => "for_resource"
  | .simpleShape => "simple_shape"
  | .simpleTypeName => "simple_type_name"
  | .enumShape => "enum_shape"
  | .enumTypeName => "enum_type_name"
  | .enumShapeMembers => "enum_shape_members"
  | .enumShapeMember => "enum_shape_member"
  | .valueAssignment => "value_assignment"
  | .aggregateShape => "aggregate_shape"
  | .aggregateTypeName => "aggregate_type_name"
  | .shapeMembers => "shape_members"
  | .shapeMember => "shape_member"
  | .explicitShapeMember => "explicit_shape_member"
  | .elidedShapeMember => "elided_shape_member"
  | .entityShape => "entity_shape"
  | .entityTypeName => "entity_type_name"
  | .operationShape => "operation_shape"
  | .operationBody => "operation_body"
  | .operationInput => "operation_input"
  | .operationOutput => "operation_output"
  | .inlineAggregateShape => "inline_aggregate_shape"
  | .operationErrors => "operation_errors"
  | .traitStatements => "trait_statements"
  | .traitApplication => "trait_application"
  | .traitName => "trait_name"
  | .traitBody => "trait_body"
  | .traitStructure => "trait_structure"
  | .nodeValue => "node_value"
  | .nodeArray => "node_array"
  | .nodeObject => "node_object"
  | .nodeObjectKvp => "node_object_kvp"
  | .nodeObjectKey => "node_object_key"
  | .number => "number"
  | .nodeKeyword => "node_keyword"
  | .nodeStringValue => "node_string_value"
  | .textBlock => "text_block"
  | .quotedText => "quoted_text"

/-- All rules, in their order. -/
def all : List Rule :=
  [.endOfInput, .idl, .whitespace, .comment, .identifier, .identifierStart, .identifierChars,
   .namespaceName, .absoluteRootShapeId, .shapeId, .keywordNamespace, .keywordUse,
   .keywordMetadata, .keywordApply, .keywordWith, .keywordFor, .keywordOperation,
   .controlSection, .controlStatement, .metadataSection, .metadataStatement, .shapeSection,
   .namespaceStatement, .useSection, .useStatement, .shapeStatements, .applyStatement,
   .applyBlock, .shapeStatement, .mixins, .forResource, .simpleShape, .simpleTypeName,
   .enumShape, .enumTypeName, .enumShapeMembers, .enumShapeMember, .valueAssignment,
   .aggregateShape, .aggregateTypeName, .shapeMembers, .shapeMember, .explicitShapeMember,
   .elidedShapeMember, .entityShape, .entityTypeName, .operationShape, .operationBody,
   .operationInput, .operationOutput, .inlineAggregateShape, .operationErrors,
   .traitStatements, .traitApplication, .traitName, .traitBody, .traitStructure, .nodeValue,
   .nodeArray, .nodeObject, .nodeObjectKvp, .nodeObjectKey, .number, .nodeKeyword,
   .nodeStringValue, .textBlock, .quotedText]

theorem mem_all (r : Rule) : r ∈ all := by cases r <;> decide

end Rule

end ServiceIdl
