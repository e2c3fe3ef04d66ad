import ServiceIdl.Decimal.Real
import ServiceIdl.Syntax.Node

/-!
# Values

What the node values of a document mean. Integers of 64 signed bits stay
integers; every other number becomes the nearest binary64 number and is kept as
its encoding, so that equal values are equal. Objects keep all their entries in
the order of the document, also those with equal keys.
-/

namespace ServiceIdl

/-- A number: an integer of 64 signed bits, or the encoding of a binary64. -/
inductive Numeric where
  | integer (n : Int)
  | float (encoding : UInt64)
deriving DecidableEq, Repr

/-- The integer, unless the number is a float. -/
def Numeric.integer? : Numeric → Option Int
  | .integer n => some n
  | .float _ => none

/-- What a node value means. -/
inductive Value where
  /-- Quoted text or a text block. -/
  | string (text : String)
  /-- A shape id without quotes. -/
  | shapeId (id : String)
  | number (n : Numeric)
  | bool (b : Bool)
  | null
  | array (values : List Value)
  | object (entries : List (String × Value))
deriving Repr, Inhabited

namespace Value

/-- The text, if the value is quoted; a shape id is none. -/
def string? : Value → Option String
  | .string text => some text
  | _ => none

/-- The number that the value is. -/
def number? : Value → Option Numeric
  | .number n => some n
  | _ => none

/-- The entries of the object that the value is, repeated keys included. -/
def entries? : Value → Option (List (String × Value))
  | .object entries => some entries
  | _ => none

end Value

/-- The number that a literal stands for. A literal without point and exponent
is an integer if it fits. -/
def Numeric.ofText? (text : String) : Option Numeric :=
  let chars := text.toList
  let integer := if chars.any fun c => c = '.' || c = 'e' || c = 'E' then none
    else Decimal.signed64? chars
  match integer with
  | some n => some (.integer n)
  | none => (Decimal.binary64? chars).map .float

/-- The number of a node. -/
def Numeric.ofNode (number : Number) : Except Defect Numeric :=
  match Numeric.ofText? number.text with
  | some n => .ok n
  | none => .error (.malformedLiteral .number number.text number.span)

/-- The value of a keyword. -/
def Value.ofKeyword (keyword : NodeKeyword) : Except Defect Value :=
  match keyword.text with
  | "true" => .ok (.bool true)
  | "false" => .ok (.bool false)
  | "null" => .ok .null
  | other => .error (.malformedLiteral .nodeKeyword other keyword.span)

/-- The value of a string: a text, or an id if it is not quoted. -/
def Value.ofString (string : NodeStringValue) : Except Defect Value := do
  match StringValueKind.form (← NodeStringValue.content string) with
  | .block block => return .string (← TextBlock.value block)
  | .quoted quoted => return .string (← QuotedText.value quoted)
  | .shapeId id => return .shapeId id.text

/-- The value of a node. -/
def Value.ofNode (node : NodeValue) : Except Defect Value :=
  match _inside : NodeValue.content node with
  | .error defect => .error defect
  | .ok content =>
    match _form : NodeValueKind.form content with
    | .array elements => do
      let values ← (NodeArray.values elements).attach.mapM fun ⟨value, _⟩ => Value.ofNode value
      return .array values
    | .object record => do
      let entries ← (NodeObject.entries record).attach.mapM fun ⟨entry, _⟩ => do
        let name ← NodeObjectKey.name (← NodeObjectKvp.key entry)
        match _assigned : NodeObjectKvp.value entry with
        | .error defect => .error defect
        | .ok value => return (name, ← Value.ofNode value)
      return .object entries
    | .number literal => (Numeric.ofNode literal).map .number
    | .keyword word => Value.ofKeyword word
    | .string text => Value.ofString text
termination_by sizeOf node.tree
decreasing_by
  · have inner := View.sizeOf_of_required _inside
    have same := NodeValueKind.tree_form content
    have element := View.sizeOf_of_mem_many ‹_›
    simp only [_form, NodeValue.Form.tree] at same
    rw [same] at element
    omega
  · have inner := View.sizeOf_of_required _inside
    have same := NodeValueKind.tree_form content
    have member := View.sizeOf_of_mem_many ‹_›
    have assigned := View.sizeOf_of_required _assigned
    simp only [_form, NodeValue.Form.tree] at same
    rw [same] at member
    omega

namespace Value

/-- The meaning of an entry of an object or of a trait's body. -/
def entryOfNode (entry : NodeObjectKvp) : Except Defect (String × Value) := do
  let name ← NodeObjectKey.name (← NodeObjectKvp.key entry)
  return (name, ← ofNode (← NodeObjectKvp.value entry))

/-- The value of a node, with the parts of arrays and objects in the usual way. -/
theorem ofNode_eq (node : NodeValue) :
    ofNode node =
      match NodeValue.content node with
      | .error defect => .error defect
      | .ok content =>
        match NodeValueKind.form content with
        | .array elements => (NodeArray.values elements).mapM ofNode >>= fun l => .ok (.array l)
        | .object record =>
          (NodeObject.entries record).mapM entryOfNode >>= fun l => .ok (.object l)
        | .number literal => (Numeric.ofNode literal).map .number
        | .keyword word => ofKeyword word
        | .string text => ofString text := by
  rw [ofNode.eq_def]
  split
  · rename_i defect failed
    rw [failed]
  · rename_i content found
    rw [found]
    simp only
    split <;> rename_i form <;> rw [form]
    · simp only [List.mapM_subtype, List.unattach_attach]
      rfl
    · rw [List.mapM_subtype (g := entryOfNode)]
      · rw [List.unattach_attach]
        rfl
      · intro entry present
        unfold entryOfNode
        cases NodeObjectKvp.key entry with
        | error defect => rfl
        | ok key =>
          cases named : NodeObjectKey.name key with
          | error defect => simp [bind, Except.bind, named]
          | ok name =>
            simp only [bind, Except.bind, named]
            split <;> rename_i assigned <;> rw [assigned]

end Value

end ServiceIdl
