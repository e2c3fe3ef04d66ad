import ServiceIdl.Peg.Expr
import ServiceIdl.Grammar.Rule

/-!
# The document grammar

`Rule.body` gives each rule its parsing expression and `Rule.modifier` its mode.
A document is a control section, a metadata section and a shape section. Names,
keywords, numbers and texts are atomic, so nothing may stand inside them; an
identifier is compound, so its parts leave their trace even inside such a word.
A comma counts as a blank.
-/

namespace ServiceIdl

open Peg (Expr CharClass)

namespace Rule

/-! ## Abbreviations -/

/-- A literal text. -/
def text (s : String) : Expr Rule := .literal s.toList

/-- The items one after the other, with trivia between them where it is allowed. -/
def inOrder (items : List (Expr Rule)) : Expr Rule := .items .loose items

/-- Any number of rounds, with trivia between them where it is allowed. -/
def many (e : Expr Rule) : Expr Rule := .many .loose e

/-- At least one round, with trivia between the rounds where it is allowed. -/
def many1 (e : Expr Rule) : Expr Rule := .many1 .loose e

/-- The first of the literal texts that stands here. -/
def oneOfTexts (texts : List String) : Expr Rule := .oneOf (texts.map text)

/-- A line feed, a carriage return or both. -/
def newline : Expr Rule := oneOfTexts ["\n", "\r\n", "\r"]

/-- A character of an identifier behind its first letter. -/
def identifierChar : Expr Rule := .choice (.char .letterOrDigit) (text "_")

/-- A word of the language, which no character of an identifier follows. -/
def word (words : List String) : Expr Rule :=
  inOrder [oneOfTexts words, .not identifierChar]

/-- A character between double quotes: one with a backslash before it, or any
but the quote and the backslash. -/
def quotedChar : Expr Rule :=
  .choice (inOrder [text "\\", .char .any])
    (inOrder [.not (oneOfTexts ["\"", "\\"]), .char .any])

/-- The target of an operation's input or output. -/
def operationTarget : Expr Rule :=
  .choice (.rule inlineAggregateShape) (inOrder [text ":", .rule shapeId])

/-- The keywords of the simple types. -/
def simpleTypeWords : List String :=
  ["blob", "boolean", "document", "string", "byte", "short", "integer", "long", "float",
   "double", "bigInteger", "bigDecimal", "timestamp"]

/-! ## The rules -/

/-- What a rule matches. -/
def body : Rule → Expr Rule
  | endOfInput => .finish
  | idl =>
    inOrder [.start, .rule controlSection, .rule metadataSection, .rule shapeSection,
      .rule endOfInput]
  | whitespace => .oneOf [text " ", text "\t", newline, text ","]
  | comment => inOrder [text "//", many (inOrder [.not newline, .char .any])]
  -- Names
  | identifier => inOrder [.rule identifierStart, .rule identifierChars]
  | identifierStart => inOrder [many (text "_"), .char .letter]
  | identifierChars => many identifierChar
  | namespaceName => inOrder [.rule identifier, many (inOrder [text ".", .rule identifier])]
  | absoluteRootShapeId => inOrder [.rule namespaceName, text "#", .rule identifier]
  | shapeId =>
    inOrder [.choice (.rule absoluteRootShapeId) (.rule identifier),
      .opt (inOrder [text "$", .rule identifier])]
  | keywordNamespace => word ["namespace"]
  | keywordUse => word ["use"]
  | keywordMetadata => word ["metadata"]
  | keywordApply => word ["apply"]
  | keywordWith => word ["with"]
  | keywordFor => word ["for"]
  | keywordOperation => word ["operation"]
  -- Control and metadata
  | controlSection => many (.rule controlStatement)
  | controlStatement =>
    inOrder [text "$", .rule nodeObjectKey, text ":", .rule nodeValue]
  | metadataSection => many (.rule metadataStatement)
  | metadataStatement =>
    inOrder [.rule keywordMetadata, .rule nodeObjectKey, text "=", .rule nodeValue]
  -- The shape section
  | shapeSection =>
    .opt (inOrder [.rule namespaceStatement, .rule useSection, .rule shapeStatements])
  | namespaceStatement => inOrder [.rule keywordNamespace, .rule namespaceName]
  | useSection => many (.rule useStatement)
  | useStatement => inOrder [.rule keywordUse, .rule absoluteRootShapeId]
  | shapeStatements => many (.choice (.rule applyStatement) (.rule shapeStatement))
  | applyStatement =>
    inOrder [.rule keywordApply, .rule shapeId,
      .choice (.rule traitApplication) (.rule applyBlock)]
  | applyBlock => inOrder [text "\x7b", .rule traitStatements, text "\x7d"]
  | shapeStatement =>
    inOrder [.rule traitStatements,
      .oneOf [.rule simpleShape, .rule enumShape, .rule aggregateShape, .rule entityShape,
        .rule operationShape]]
  -- Shapes
  | mixins => inOrder [.rule keywordWith, text "[", many (.rule shapeId), text "]"]
  | forResource => inOrder [.rule keywordFor, .rule shapeId]
  | simpleShape =>
    inOrder [.rule simpleTypeName, .rule identifier, .opt (.rule mixins)]
  | simpleTypeName => word simpleTypeWords
  | enumShape =>
    inOrder [.rule enumTypeName, .rule identifier, .opt (.rule mixins),
      .rule enumShapeMembers]
  | enumTypeName => word ["enum", "intEnum"]
  | enumShapeMembers => inOrder [text "\x7b", many (.rule enumShapeMember), text "\x7d"]
  | enumShapeMember =>
    inOrder [.rule traitStatements, .rule identifier, .opt (.rule valueAssignment)]
  | valueAssignment => inOrder [text "=", .rule nodeValue]
  | aggregateShape =>
    inOrder [.rule aggregateTypeName, .rule identifier, .opt (.rule forResource),
      .opt (.rule mixins), .rule shapeMembers]
  | aggregateTypeName => word ["list", "map", "union", "structure"]
  | shapeMembers => inOrder [text "\x7b", many (.rule shapeMember), text "\x7d"]
  | shapeMember =>
    inOrder [.rule traitStatements,
      .choice (.rule explicitShapeMember) (.rule elidedShapeMember),
      .opt (.rule valueAssignment)]
  | explicitShapeMember => inOrder [.rule identifier, text ":", .rule shapeId]
  | elidedShapeMember => inOrder [text "$", .rule identifier]
  | entityShape =>
    inOrder [.rule entityTypeName, .rule identifier, .opt (.rule mixins), .rule nodeObject]
  | entityTypeName => word ["service", "resource"]
  | operationShape =>
    inOrder [.rule keywordOperation, .rule identifier, .opt (.rule mixins),
      .rule operationBody]
  | operationBody =>
    inOrder [text "\x7b",
      many (.oneOf [.rule operationInput, .rule operationOutput, .rule operationErrors]),
      text "\x7d"]
  | operationInput => inOrder [.rule traitStatements, text "input", operationTarget]
  | operationOutput => inOrder [.rule traitStatements, text "output", operationTarget]
  | inlineAggregateShape =>
    inOrder [text ":=", .rule traitStatements, .opt (.rule forResource), .opt (.rule mixins),
      .rule shapeMembers]
  | operationErrors =>
    inOrder [text "errors", text ":", text "[", many (.rule shapeId), text "]"]
  -- Traits
  | traitStatements => many (.rule traitApplication)
  | traitApplication => inOrder [.rule traitName, .opt (.rule traitBody)]
  | traitName => inOrder [text "@", .rule shapeId]
  | traitBody =>
    inOrder [text "(", .opt (.choice (.rule traitStructure) (.rule nodeValue)), text ")"]
  | traitStructure => many1 (.rule nodeObjectKvp)
  -- Node values
  | nodeValue =>
    .oneOf [.rule nodeArray, .rule nodeObject, .rule number, .rule nodeKeyword,
      .rule nodeStringValue]
  | nodeArray => inOrder [text "[", many (.rule nodeValue), text "]"]
  | nodeObject => inOrder [text "\x7b", many (.rule nodeObjectKvp), text "\x7d"]
  | nodeObjectKvp => inOrder [.rule nodeObjectKey, text ":", .rule nodeValue]
  | nodeObjectKey => .choice (.rule quotedText) (.rule identifier)
  | number =>
    inOrder [.opt (text "-"), many1 (.char .digit),
      .opt (inOrder [text ".", many1 (.char .digit)]),
      .opt (inOrder [oneOfTexts ["e", "E"], .opt (oneOfTexts ["+", "-"]),
        many1 (.char .digit)])]
  | nodeKeyword => word ["true", "false", "null"]
  | nodeStringValue => .oneOf [.rule textBlock, .rule quotedText, .rule shapeId]
  | textBlock =>
    inOrder [text "\"\"\"", many (inOrder [.not (text "\"\"\""), .char .any]),
      text "\"\"\""]
  | quotedText => inOrder [text "\"", many quotedChar, text "\""]

/-- How a rule changes the mode. -/
def modifier : Rule → Peg.Modifier
  | .identifier | .elidedShapeMember | .traitName => .compound
  | .whitespace | .comment | .namespaceName | .absoluteRootShapeId | .shapeId
  | .keywordNamespace | .keywordUse | .keywordMetadata | .keywordApply | .keywordWith
  | .keywordFor | .keywordOperation | .simpleTypeName | .enumTypeName | .aggregateTypeName
  | .entityTypeName | .number | .nodeKeyword | .textBlock | .quotedText
    => .atomic
  | _ => .plain

end Rule

/-- The grammar of documents. -/
def documentGrammar : Peg.Grammar Rule where
  body := Rule.body
  modifier := Rule.modifier
  blank := .whitespace
  comment := .comment

end ServiceIdl
