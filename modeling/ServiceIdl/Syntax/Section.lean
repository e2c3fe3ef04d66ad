import ServiceIdl.Syntax.Declaration

/-!
# Sections of a document

A document has a control section, a metadata section and a shape section. The
last is empty in a document without a namespace; otherwise it names the
namespace, imports ids, and declares shapes or applies traits to them.
-/

namespace ServiceIdl

/-- A whole document. -/
abbrev Idl := View .idl

/-- The control statements, which stand first. -/
abbrev ControlSection := View .controlSection

/-- A statement such as `$version: "2"`. -/
abbrev ControlStatement := View .controlStatement

/-- The metadata statements, which stand second. -/
abbrev MetadataSection := View .metadataSection

/-- A statement such as `metadata a = 1`. -/
abbrev MetadataStatement := View .metadataStatement

/-- The namespace and what is declared in it. -/
abbrev ShapeSection := View .shapeSection

/-- A statement such as `namespace a.b`. -/
abbrev NamespaceStatement := View .namespaceStatement

/-- The statements with the ids that are used. -/
abbrev UseSection := View .useSection

/-- A statement such as `use a#B`. -/
abbrev UseStatement := View .useStatement

/-- The shapes and applications of a document. -/
abbrev ShapeStatements := View .shapeStatements

/-- A statement such as `apply a#B @required`, or one with a block of traits. -/
abbrev ApplyStatement := View .applyStatement

/-- The traits in braces behind the id of an application. -/
abbrev ApplyBlock := View .applyBlock

namespace Idl

/-- The first section. -/
def controlSection (idl : Idl) : Except Defect ControlSection := idl.required .controlSection

/-- The second section. -/
def metadataSection (idl : Idl) : Except Defect MetadataSection := idl.required .metadataSection

/-- The section with the shapes, which may be empty. -/
def shapeSection (idl : Idl) : Except Defect ShapeSection := idl.required .shapeSection

/-- The document of a tree, which has the right kind of root in every document. -/
def ofTree (tree : Tree) : Except Defect Idl :=
  match View.of? .idl tree with
  | some idl => .ok idl
  | none => .error (.missingChild tree.kind .idl tree.span)

end Idl

/-- The statements of the section, in the order of the document. -/
def ControlSection.statements (part : ControlSection) : List ControlStatement :=
  part.many .controlStatement

namespace ControlStatement

def key (statement : ControlStatement) : Except Defect NodeObjectKey :=
  statement.required .nodeObjectKey

def value (statement : ControlStatement) : Except Defect NodeValue :=
  statement.required .nodeValue

end ControlStatement

/-- The statements of the section, in the order of the document. -/
def MetadataSection.statements (part : MetadataSection) : List MetadataStatement :=
  part.many .metadataStatement

namespace MetadataStatement

def key (statement : MetadataStatement) : Except Defect NodeObjectKey :=
  statement.required .nodeObjectKey

def value (statement : MetadataStatement) : Except Defect NodeValue :=
  statement.required .nodeValue

end MetadataStatement

namespace ShapeSection

/-- The statement with the namespace, without which the section is empty. -/
def namespaceStatement (part : ShapeSection) : Option NamespaceStatement :=
  part.optional .namespaceStatement

/-- The section with the ids that are used. -/
def useSection (part : ShapeSection) : Option UseSection := part.optional .useSection

/-- The section with shapes and applications. -/
def statements (part : ShapeSection) : Option ShapeStatements := part.optional .shapeStatements

end ShapeSection

/-- The name of the namespace, with its dots. -/
def NamespaceStatement.name (statement : NamespaceStatement) : Except Defect NamespaceName :=
  statement.required .namespaceName

/-- The statements of the section, in the order of the document. -/
def UseSection.statements (part : UseSection) : List UseStatement := part.many .useStatement

/-- The id that is used. -/
def UseStatement.target (statement : UseStatement) : Except Defect AbsoluteRootShapeId :=
  statement.required .absoluteRootShapeId

namespace ShapeStatements

/-- The shapes, in the order of the document and without the applications between them. -/
def shapes (statements : ShapeStatements) : List ShapeStatement :=
  statements.many .shapeStatement

/-- The applications, in the order of the document and without the shapes between them. -/
def applies (statements : ShapeStatements) : List ApplyStatement :=
  statements.many .applyStatement

end ShapeStatements

/-- The traits in the block. -/
def ApplyBlock.traits (block : ApplyBlock) : Except Defect TraitStatements :=
  block.required .traitStatements

namespace ApplyStatement

/-- The id that the traits are applied to. -/
def target (statement : ApplyStatement) : Except Defect ShapeId := statement.required .shapeId

/-- The traits applied: a single one, or those of a block. -/
def traits (statement : ApplyStatement) : Except Defect (List TraitApplication) :=
  match statement.optional .traitApplication with
  | some application => .ok [application]
  | none => do
    let block ← statement.required .applyBlock
    return TraitStatements.traits (← ApplyBlock.traits block)

end ApplyStatement

end ServiceIdl
