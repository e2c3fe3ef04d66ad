import ServiceIdl.Shape.Value
import ServiceIdl.Syntax.Application

/-!
# Traits

What the traits in front of a declaration mean: an id, and possibly a body of
entries or of one value. Traits of the prelude are known without its namespace.
Where a trait or a key is given more than once, the last one counts.
-/

namespace ServiceIdl

/-- The namespace of the prelude with the mark behind it. -/
def preludeMark : String := "smithy.api#"

/-- An id without the namespace of the prelude, if it has that one. -/
def withoutPrelude? (id : String) : Option String :=
  (Text.dropLead? preludeMark.toList id.toList).map String.ofList

/-- The body of a trait. -/
inductive TraitBody where
  | value (value : Value)
  | entries (entries : List (String × Value))
deriving Repr

namespace TraitBody

/-- The entries of the body, or of the object that it is. -/
def entries? : TraitBody → Option (List (String × Value))
  | .entries pairs => some pairs
  | .value v => v.entries?

/-- The value that the body is. -/
def value? : TraitBody → Option Value
  | .value v => some v
  | .entries _ => none

/-- The last value with a key. -/
def field? (body : TraitBody) (key : String) : Option Value :=
  body.entries?.bind fun entries =>
    (entries.reverse.find? fun (name, _) => name = key).map Prod.snd

end TraitBody

/-- A trait of a declaration. -/
structure Trait where
  /-- The id, without the namespace of the prelude. -/
  id : String
  body : Option TraitBody
  /-- The text between the quotes with escapes as written, if the body is one
  quoted text. -/
  verbatim : Option String
  span : Span
deriving Repr

namespace Trait

/-- The last value with a key in the body. -/
def field? (t : Trait) (key : String) : Option Value := t.body.bind (·.field? key)

/-- The value that the body is. -/
def value? (t : Trait) : Option Value := t.body.bind TraitBody.value?

/-- The last trait with an id. -/
def find? (traits : List Trait) (id : String) : Option Trait :=
  traits.reverse.find? (·.id = id)

/-- The text between the quotes of a node that is one quoted text. -/
def quotedRaw? (node : NodeValue) : Except Defect (Option String) := do
  match NodeValueKind.form (← NodeValue.content node) with
  | .string string =>
    match StringValueKind.form (← NodeStringValue.content string) with
    | .quoted quoted => return some (← QuotedText.raw quoted)
    | _ => return none
  | _ => return none

/-- The meaning of a trait application. -/
def ofNode (application : TraitApplication) : Except Defect Trait := do
  let written ← TraitApplication.id application
  let id := (withoutPrelude? written).getD written
  let span := application.span
  match TraitApplication.body application with
  | none => return { id, body := none, verbatim := none, span }
  | some body =>
    match TraitBodyNode.structure? body, TraitBodyNode.value? body with
    | some entries, _ =>
      let entries ← (TraitStructure.entries entries).mapM Value.entryOfNode
      return { id, body := some (.entries entries), verbatim := none, span }
    | none, some node =>
      let verbatim ← quotedRaw? node
      let value ← Value.ofNode node
      return { id, body := some (.value value), verbatim, span }
    | none, none => return { id, body := none, verbatim := none, span }

/-- The meaning of the traits of a declaration. -/
def ofStatements (statements : TraitStatements) : Except Defect (List Trait) :=
  (TraitStatements.traits statements).mapM ofNode

end Trait

end ServiceIdl
