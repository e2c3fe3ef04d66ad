import ServiceIdl.Syntax.Node

/-!
# Trait applications

The traits written in front of a declaration: a name behind an at sign, and
possibly a body in parentheses, which holds entries or one value.
-/

namespace ServiceIdl

/-- The traits in front of a declaration or a member, if only none. -/
abbrev TraitStatements := View .traitStatements

/-- A trait such as `@length(min: 1)`. -/
abbrev TraitApplication := View .traitApplication

/-- The id behind the at sign. -/
abbrev TraitName := View .traitName

/-- What stands in parentheses behind the name of a trait. -/
abbrev TraitBodyNode := View .traitBody

/-- The entries of a trait, separated as those of an object. -/
abbrev TraitStructure := View .traitStructure

/-- The traits of a declaration, in the order of the document. -/
def TraitStatements.traits (statements : TraitStatements) : List TraitApplication :=
  statements.many .traitApplication

/-- The id that the name of a trait is. -/
def TraitName.shapeId (name : TraitName) : Except Defect ShapeId := name.required .shapeId

namespace TraitApplication

/-- The name of the trait. -/
def name (application : TraitApplication) : Except Defect TraitName :=
  application.required .traitName

/-- The shape id of the trait as written, without the at sign. -/
def id (application : TraitApplication) : Except Defect String := do
  return (← TraitName.shapeId (← name application)).text

/-- The body of the trait, if it has one. -/
def body (application : TraitApplication) : Option TraitBodyNode :=
  application.optional .traitBody

end TraitApplication

namespace TraitBodyNode

/-- The entries of the body, unless it is one value or empty. -/
def structure? (body : TraitBodyNode) : Option TraitStructure := body.optional .traitStructure

/-- The value that the body is, unless it has entries or is empty. -/
def value? (body : TraitBodyNode) : Option NodeValue := body.optional .nodeValue

end TraitBodyNode

/-- The entries in the body, in the order of the document. -/
def TraitStructure.entries (structure_ : TraitStructure) : List NodeObjectKvp :=
  structure_.many .nodeObjectKvp

end ServiceIdl
