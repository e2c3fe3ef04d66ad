import ServiceIdl.Syntax.Word

/-!
# Node values

The literal values of a document: arrays, objects, numbers, keywords and
strings. A string is a text block, a quoted text or a bare shape id.
-/

namespace ServiceIdl

/-- A value such as `1`, `"a"`, `a#B`, `[1]` or `{ a: 1 }`. -/
abbrev NodeValue := View .nodeValue

/-- A value by its kind. -/
abbrev NodeValueKind := View .nodeValueKind

/-- An array such as `[1, 2]`. -/
abbrev NodeArray := View .nodeArray

/-- An object such as `{ a: 1, b: 2 }`. -/
abbrev NodeObject := View .nodeObject

/-- An entry such as `a: 1`. -/
abbrev NodeObjectKvp := View .nodeObjectKvp

/-- The key of an entry: a word or a quoted text. -/
abbrev NodeObjectKey := View .nodeObjectKey

/-- A number with its sign, its fraction and its exponent. -/
abbrev Number := View .number

/-- One of the words `true`, `false` and `null`. -/
abbrev NodeKeyword := View .nodeKeyword

/-- A text or an id as a value. -/
abbrev NodeStringValue := View .nodeStringValue

/-- A text block, a quoted text or an id. -/
abbrev StringValueKind := View .stringValueKind

namespace NodeValue

/-- The kinds of node values. -/
inductive Form where
  | array (array : NodeArray)
  | object (object : NodeObject)
  | number (number : Number)
  | keyword (keyword : NodeKeyword)
  | string (string : NodeStringValue)

/-- The tree behind a form. -/
def Form.tree : Form → Tree
  | .array v => v.tree
  | .object v => v.tree
  | .number v => v.tree
  | .keyword v => v.tree
  | .string v => v.tree

/-- The value's one child. -/
def content (value : NodeValue) : Except Defect NodeValueKind := value.required .nodeValueKind

end NodeValue

/-- Which kind of node value this is. -/
def NodeValueKind.form (v : NodeValueKind) : NodeValue.Form :=
  if array : v.tree.kind = .nodeArray then .array ⟨v.tree, by simp [array, Category.kinds]⟩
  else if object : v.tree.kind = .nodeObject then
    .object ⟨v.tree, by simp [object, Category.kinds]⟩
  else if number : v.tree.kind = .number then .number ⟨v.tree, by simp [number, Category.kinds]⟩
  else if keyword : v.tree.kind = .nodeKeyword then
    .keyword ⟨v.tree, by simp [keyword, Category.kinds]⟩
  else .string ⟨v.tree, by have := v.accepted; simp_all [Category.kinds]⟩

@[simp] theorem NodeValueKind.tree_form (v : NodeValueKind) :
    (NodeValueKind.form v).tree = v.tree := by
  unfold NodeValueKind.form
  repeat' split
  all_goals rfl

/-- The elements of an array. -/
def NodeArray.values (array : NodeArray) : List NodeValue := array.many .nodeValue

/-- A key as text: a quoted key with its escapes resolved, or a bare name. -/
def NodeObjectKey.name (key : NodeObjectKey) : Except Defect String :=
  match key.optional .quotedText with
  | some quoted => QuotedText.value quoted
  | none => (key.required .identifier).map View.text

namespace NodeObjectKvp

/-- What stands in front of the colon. -/
def key (entry : NodeObjectKvp) : Except Defect NodeObjectKey := entry.required .nodeObjectKey

/-- What stands behind the colon. -/
def value (entry : NodeObjectKvp) : Except Defect NodeValue := entry.required .nodeValue

end NodeObjectKvp

namespace NodeObject

/-- The entries in the order of the document, also those with equal keys. -/
def entries (object : NodeObject) : List NodeObjectKvp := object.many .nodeObjectKvp

/-- The value of the last entry with a key. -/
def get? (object : NodeObject) (key : String) : Except Defect (Option NodeValue) :=
  (entries object).foldlM
    (fun found entry => do
      let name ← NodeObjectKey.name (← NodeObjectKvp.key entry)
      if name = key then return some (← NodeObjectKvp.value entry)
      else return found)
    none

end NodeObject

namespace NodeStringValue

/-- The kinds of strings. -/
inductive Form where
  | block (block : TextBlock)
  | quoted (quoted : QuotedText)
  | shapeId (id : ShapeId)

/-- The string's one child. -/
def content (string : NodeStringValue) : Except Defect StringValueKind :=
  string.required .stringValueKind

end NodeStringValue

/-- Which kind of string this is. -/
def StringValueKind.form (v : StringValueKind) : NodeStringValue.Form :=
  if block : v.tree.kind = .textBlock then .block ⟨v.tree, by simp [block, Category.kinds]⟩
  else if quoted : v.tree.kind = .quotedText then
    .quoted ⟨v.tree, by simp [quoted, Category.kinds]⟩
  else .shapeId ⟨v.tree, by have := v.accepted; simp_all [Category.kinds]⟩

end ServiceIdl
