import ServiceIdl.Proofs.Shape.Indexed
import ServiceIdl.Proofs.Syntax.Bare

/-!
# Reading bare trees

Values, traits and the index of a document are the same for the bare tree, except that
what they keep of the tree is bare (`ShapeIndex.ofIdl_bare`).
-/

namespace ServiceIdl

open Outcome (map_of_bind bind_of_map)

/-! ## Forms -/

/-- The form of the bare view. -/
def NodeValue.Form.bare : NodeValue.Form → NodeValue.Form
  | .array v => .array v.bare
  | .object v => .object v.bare
  | .number v => .number v.bare
  | .keyword v => .keyword v.bare
  | .string v => .string v.bare

theorem NodeValueKind.form_bare (v : NodeValueKind) :
    NodeValueKind.form v.bare = (NodeValueKind.form v).bare := by
  rcases v with ⟨tree, accepted⟩
  cases tree with
  | token => cases Category.isNode_of_mem_kinds accepted
  | node kind span children =>
    simp only [Category.kinds, Tree.kind, List.mem_cons, List.not_mem_nil, or_false] at accepted
    rcases accepted with rfl | rfl | rfl | rfl | rfl
    all_goals rfl

/-- The form of the bare view. -/
def ShapeDecl.Form.bare : ShapeDecl.Form → ShapeDecl.Form
  | .simple v => .simple v.bare
  | .enum v => .enum v.bare
  | .aggregate v => .aggregate v.bare
  | .entity v => .entity v.bare
  | .operation v => .operation v.bare

theorem ShapeDecl.form_bare (decl : ShapeDecl) :
    ShapeDecl.form decl.bare = (ShapeDecl.form decl).bare := by
  rcases decl with ⟨tree, accepted⟩
  cases tree with
  | token => cases Category.isNode_of_mem_kinds accepted
  | node kind span children =>
    simp only [Category.kinds, Tree.kind, List.mem_cons, List.not_mem_nil, or_false] at accepted
    rcases accepted with rfl | rfl | rfl | rfl | rfl
    all_goals rfl

/-! ## Values -/

/-- Words keep their text, so a key is read as before. -/
theorem NodeObjectKey.name_bare (key : NodeObjectKey) :
    NodeObjectKey.name key.bare = NodeObjectKey.name key := by
  unfold NodeObjectKey.name
  rw [View.optional_word (by decide) (by decide), View.required_word (by decide) (by decide)]

theorem NodeObjectKvp.key_bare (entry : NodeObjectKvp) :
    NodeObjectKvp.key entry.bare = (NodeObjectKvp.key entry).map View.bare :=
  View.required_bare (by decide) entry _

theorem NodeObjectKvp.value_bare (entry : NodeObjectKvp) :
    NodeObjectKvp.value entry.bare = (NodeObjectKvp.value entry).map View.bare :=
  View.required_bare (by decide) entry _

theorem NodeObject.entries_bare (object : NodeObject) :
    NodeObject.entries object.bare = (NodeObject.entries object).map View.bare :=
  View.many_bare (by decide) object _

theorem NodeValue.content_bare (value : NodeValue) :
    NodeValue.content value.bare = (NodeValue.content value).map View.bare :=
  View.required_bare (by decide) value _

theorem NodeStringValue.content_bare (string : NodeStringValue) :
    NodeStringValue.content string.bare = NodeStringValue.content string :=
  View.required_word (by decide) (by decide) string

/-- The last entry with a key has the bare value. -/
theorem NodeObject.get?_bare (object : NodeObject) (key : String) :
    NodeObject.get? object.bare key = (NodeObject.get? object key).map (Option.map View.bare) := by
  unfold NodeObject.get?
  rw [NodeObject.entries_bare, List.foldlM_map]
  refine Outcome.foldlM_map (f := Option.map View.bare) (fun found entry => ?_)
    (NodeObject.entries object) none
  rw [NodeObjectKvp.key_bare, NodeObjectKvp.value_bare, bind_of_map]
  cases NodeObjectKvp.key entry with
  | error => rfl
  | ok written =>
    simp only [Outcome.ok_bind, NodeObjectKey.name_bare]
    cases NodeObjectKey.name written with
    | error => rfl
    | ok name =>
      simp only [Outcome.ok_bind]
      split
      · cases NodeObjectKvp.value entry <;> rfl
      · rfl

namespace Value

theorem ofString_bare (string : NodeStringValue) : ofString string.bare = ofString string := by
  rw [ofString, ofString, NodeStringValue.content_bare]

/-- An entry is read alike if its value is. -/
theorem entryOfNode_bare_of_value {entry : NodeObjectKvp}
    (alike : ∀ value, NodeObjectKvp.value entry = .ok value → ofNode value.bare = ofNode value) :
    entryOfNode entry.bare = entryOfNode entry := by
  unfold entryOfNode
  rw [NodeObjectKvp.key_bare, NodeObjectKvp.value_bare, bind_of_map]
  refine bind_congr fun key => ?_
  rw [NodeObjectKey.name_bare]
  refine bind_congr fun name => ?_
  rw [bind_of_map]
  cases assigned : NodeObjectKvp.value entry with
  | error => rfl
  | ok value =>
    rw [Outcome.ok_bind, Outcome.ok_bind, alike value assigned]

/-- A bare node has the value of the node. -/
theorem ofNode_bare (node : NodeValue) : ofNode node.bare = ofNode node := by
  rw [ofNode_eq, ofNode_eq, NodeValue.content_bare]
  cases found : NodeValue.content node with
  | error => rfl
  | ok content =>
    have smaller := View.sizeOf_of_required found
    rw [← NodeValueKind.tree_form] at smaller
    simp only [Except.map, NodeValueKind.form_bare]
    cases form : NodeValueKind.form content with
    | array elements =>
      rw [form] at smaller
      have inner : sizeOf elements.tree < sizeOf node.tree := smaller
      simp only [NodeValue.Form.bare]
      rw [NodeArray.values, View.many_bare (by decide), List.mapM_map]
      refine congrArg (· >>= _) (Outcome.mapM_congr ?_)
      intro value member
      have below := View.sizeOf_of_mem_many member
      exact ofNode_bare value
    | object record =>
      rw [form] at smaller
      have inner : sizeOf record.tree < sizeOf node.tree := smaller
      simp only [NodeValue.Form.bare]
      rw [NodeObject.entries_bare, List.mapM_map]
      refine congrArg (· >>= _) (Outcome.mapM_congr ?_)
      intro entry member
      have below := View.sizeOf_of_mem_many member
      apply entryOfNode_bare_of_value
      intro value assigned
      have farBelow := View.sizeOf_of_required assigned
      exact ofNode_bare value
    | number literal =>
      simp only [NodeValue.Form.bare]
      rw [View.bare_of_isWord (by decide)]
    | keyword word =>
      simp only [NodeValue.Form.bare]
      rw [View.bare_of_isWord (by decide)]
    | string text =>
      exact ofString_bare text
termination_by sizeOf node.tree
decreasing_by
  · omega
  · omega

/-- Values keep nothing of the tree, so reading an entry is not changed. -/
theorem entryOfNode_bare (entry : NodeObjectKvp) : entryOfNode entry.bare = entryOfNode entry :=
  entryOfNode_bare_of_value fun value _ => ofNode_bare value

end Value

/-! ## Traits -/

namespace Trait

theorem quotedRaw?_bare (node : NodeValue) : quotedRaw? node.bare = quotedRaw? node := by
  unfold quotedRaw?
  rw [NodeValue.content_bare, bind_of_map]
  refine bind_congr fun content => ?_
  rw [NodeValueKind.form_bare]
  cases NodeValueKind.form content with
  | string string =>
    simp only [NodeValue.Form.bare]
    rw [NodeStringValue.content_bare]
  | array | object | number | keyword => rfl

theorem id_bare (application : TraitApplication) :
    TraitApplication.id application.bare = TraitApplication.id application := by
  unfold TraitApplication.id TraitApplication.name TraitName.shapeId
  rw [View.required_bare (by decide), bind_of_map]
  refine bind_congr fun name => ?_
  rw [View.required_word (by decide) (by decide)]

/-- A bare application is the same trait. -/
theorem ofNode_bare (application : TraitApplication) :
    ofNode application.bare = ofNode application := by
  unfold ofNode
  rw [id_bare, View.span_bare, TraitApplication.body, TraitApplication.body,
    View.optional_bare (by decide)]
  refine bind_congr fun written => ?_
  cases application.optional .traitBody with
  | none => rfl
  | some body =>
    simp only [Option.map_some, TraitBodyNode.structure?, TraitBodyNode.value?]
    rw [View.optional_bare (by decide), View.optional_bare (by decide)]
    cases body.optional .traitStructure with
    | some entries =>
      simp only [Option.map_some, TraitStructure.entries]
      rw [View.many_bare (by decide), List.mapM_map]
      refine congrArg (· >>= _) (Outcome.mapM_congr ?_)
      intro entry _
      exact Value.entryOfNode_bare entry
    | none =>
      cases body.optional .nodeValue with
      | none => rfl
      | some node =>
        simp only [Option.map_none, Option.map_some]
        rw [quotedRaw?_bare, Value.ofNode_bare]

/-- Traits are read alike, places included, as a bare tree keeps its spans. -/
theorem ofStatements_bare (statements : TraitStatements) :
    ofStatements statements.bare = ofStatements statements := by
  unfold ofStatements TraitStatements.traits
  rw [View.many_bare (by decide), List.mapM_map]
  exact Outcome.mapM_congr fun application _ => ofNode_bare application

end Trait

/-! ## The index -/

theorem ShapeCategory.ofDecl_bare (decl : ShapeDecl) : ofDecl decl.bare = ofDecl decl := by
  unfold ofDecl
  rw [ShapeDecl.form_bare]
  cases ShapeDecl.form decl with
  | aggregate shape =>
    simp only [ShapeDecl.Form.bare, AggregateShape.typeName]
    rw [View.required_word (by decide) (by decide)]
  | entity shape =>
    simp only [ShapeDecl.Form.bare, EntityShape.typeName]
    rw [View.required_word (by decide) (by decide)]
  | simple | enum | operation => rfl

namespace ShapeRecord

/-- The record with the bare declaration. -/
def bare (record : ShapeRecord) : ShapeRecord := { record with decl := record.decl.bare }

@[simp] theorem name_bare (record : ShapeRecord) : record.bare.name = record.name := rfl

@[simp] theorem span_bare (record : ShapeRecord) : record.bare.span = record.span :=
  record.decl.span_bare

theorem simple?_bare (record : ShapeRecord) :
    record.bare.simple? = record.simple?.map View.bare := by
  unfold simple?
  rw [bare, ShapeDecl.form_bare]
  cases ShapeDecl.form record.decl <;> rfl

theorem enum?_bare (record : ShapeRecord) : record.bare.enum? = record.enum?.map View.bare := by
  unfold enum?
  rw [bare, ShapeDecl.form_bare]
  cases ShapeDecl.form record.decl <;> rfl

theorem aggregate?_bare (record : ShapeRecord) :
    record.bare.aggregate? = record.aggregate?.map View.bare := by
  unfold aggregate?
  rw [bare, ShapeDecl.form_bare]
  cases ShapeDecl.form record.decl <;> rfl

theorem entity?_bare (record : ShapeRecord) :
    record.bare.entity? = record.entity?.map View.bare := by
  unfold entity?
  rw [bare, ShapeDecl.form_bare]
  cases ShapeDecl.form record.decl <;> rfl

theorem operation?_bare (record : ShapeRecord) :
    record.bare.operation? = record.operation?.map View.bare := by
  unfold operation?
  rw [bare, ShapeDecl.form_bare]
  cases ShapeDecl.form record.decl <;> rfl

end ShapeRecord

namespace Table

variable {κ α β : Type}

/-- The table with changed values. -/
def map (f : α → β) (table : Table κ α) : Table κ β :=
  ⟨table.entries.map fun (key, value) => (key, f value)⟩

variable [DecidableEq κ]

/-- A look-up in a mapped table is a mapped look-up. -/
theorem get?_map (f : α → β) (table : Table κ α) (key : κ) :
    (table.map f).get? key = (table.get? key).map f := by
  rw [get?, get?, map, List.find?_map, Option.map_map, Option.map_map]
  rfl

theorem insert_map (f : α → β) (table : Table κ α) (key : κ) (value : α) :
    (table.map f).insert key (f value) = (table.insert key value).map f := by
  rcases table with ⟨entries⟩
  simp only [insert, alter, map, Table.mk.injEq]
  induction entries with
  | nil => rfl
  | cons entry rest ih =>
    rcases entry with ⟨k, a⟩
    by_cases same : k = key
    · simp [alterEntries, same]
    · simp [alterEntries, same, ih]

end Table

namespace ShapeIndex

/-- The index of the bare tree. -/
def bare (index : ShapeIndex) : ShapeIndex :=
  { index with
    shapes := index.shapes.map ShapeRecord.bare
    applies := index.applies.map View.bare }

@[simp] theorem namespaceName_bare (index : ShapeIndex) :
    index.bare.namespaceName = index.namespaceName := rfl

theorem applies_bare (index : ShapeIndex) :
    index.bare.applies = index.applies.map View.bare := rfl

/-- A bare statement is indexed as the bare record of the statement. -/
theorem declare_bare (index : ShapeIndex) (statement : ShapeStatement) :
    index.bare.declare statement.bare = (index.declare statement).map bare := by
  unfold declare ShapeStatement.shape ShapeStatement.traits ShapeDecl.name
  rw [View.required_bare (by decide), View.required_bare (by decide), bind_of_map, map_of_bind]
  refine bind_congr fun decl => ?_
  rw [View.required_word (by decide) (by decide), ShapeCategory.ofDecl_bare, map_of_bind]
  refine bind_congr fun name => ?_
  rw [map_of_bind]
  refine bind_congr fun category => ?_
  rw [bind_of_map, map_of_bind]
  refine bind_congr fun part => ?_
  rw [Trait.ofStatements_bare, map_of_bind]
  refine bind_congr fun traits => ?_
  have inserted := Table.insert_map ShapeRecord.bare index.shapes (category, name.text)
    ⟨category, name.text, decl⟩
  simp only [ShapeRecord.bare] at inserted
  simp only [bare, inserted]
  rfl

/-- The whole index, by induction on the statements. -/
theorem ofStatements?_bare (namespaceName : Option String) (statements? : Option ShapeStatements) :
    ofStatements? namespaceName (statements?.map View.bare) =
      (ofStatements? namespaceName statements?).map bare := by
  cases statements? with
  | none => rfl
  | some statements =>
    have start : bare (empty namespaceName) = empty namespaceName := rfl
    simp only [Option.map_some, ofStatements?, ShapeStatements.shapes, ShapeStatements.applies]
    rw [View.many_bare (by decide), View.many_bare (by decide), List.foldlM_map, ← start,
      Outcome.foldlM_map (f := bare) declare_bare, bind_of_map, map_of_bind, start]
    rfl

/-- The index of a bare document is the bare index. -/
theorem ofIdl_bare (idl : Idl) : ofIdl idl.bare = (ofIdl idl).map bare := by
  unfold ofIdl Idl.shapeSection ShapeSection.namespaceStatement ShapeSection.statements
  rw [View.required_bare (by decide), bind_of_map, map_of_bind]
  refine bind_congr fun part => ?_
  rw [View.optional_bare (by decide), View.optional_bare (by decide)]
  cases part.optional .namespaceStatement with
  | none => exact ofStatements?_bare none (part.optional .shapeStatements)
  | some statement =>
    simp only [Option.map_some, NamespaceStatement.name]
    rw [View.required_word (by decide) (by decide), bind_of_map, bind_of_map, map_of_bind]
    exact bind_congr fun name =>
      ofStatements?_bare (some name.text) (part.optional .shapeStatements)

/-! ### Look-ups -/

@[simp] theorem traitsOf_bare (index : ShapeIndex) (id : String) :
    index.bare.traitsOf id = index.traitsOf id := rfl

theorem find?_bare (index : ShapeIndex) (category : ShapeCategory) (id : String) :
    index.bare.find? category id = (index.find? category id).map ShapeRecord.bare := by
  change ((index.localName? id).bind fun name =>
    (index.shapes.map ShapeRecord.bare).get? (category, name)) = _
  unfold find?
  cases index.localName? id with
  | none => rfl
  | some name => exact Table.get?_map ..

theorem lookup?_bare (index : ShapeIndex) (id : String) :
    index.bare.lookup? id = (index.lookup? id).map ShapeRecord.bare := by
  unfold lookup?
  induction ShapeCategory.all with
  | nil => rfl
  | cons category rest ih =>
    rw [List.findSome?_cons, List.findSome?_cons, find?_bare, ih]
    cases index.find? category id <;> rfl

theorem records_bare (index : ShapeIndex) (category : ShapeCategory) :
    index.bare.records category = (index.records category).map ShapeRecord.bare := by
  unfold records
  rw [bare, Table.map, List.filter_map, List.map_map, List.map_map]
  rfl

end ShapeIndex

end ServiceIdl
