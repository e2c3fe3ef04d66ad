import ServiceIdl.Proofs.Decimal.Written
import ServiceIdl.Proofs.Shape.Indexed

/-!
# Shapes within their document

Every part of a document lies within its text, and so does every trait and every shape
in its index. The integers in the values of traits have 64 signed bits, since a literal
that has more is read as a float. An index with both is `ShapeIndex.IsWithin`; that of a
document is (`ShapeIndex.ensures_ofIdl`).
-/

namespace ServiceIdl

open Outcome (Ensures)

/-! ## Parts -/

/-- The tree lies within a text with everything inside it. -/
def Tree.IsWithin (text : List Char) (tree : Tree) : Prop :=
  ∀ part, Tree.Occurs part tree → part.span.IsOf text

namespace Tree

/-- In a document everything stands over its own part of the text. -/
theorem IsDocument.isWithin {text : List Char} {tree : Tree} (document : tree.IsDocument text) :
    tree.IsWithin text := by
  intro part occurs
  exact ⟨part.text.toList, (document.sits.of_occurs occurs).holds⟩

/-- What lies within the text does so with its children. -/
theorem IsWithin.child {text : List Char} {tree child : Tree} (within : tree.IsWithin text)
    (member : child ∈ tree.children) : child.IsWithin text :=
  fun part occurs => within part (occurs.trans (.inside member .self))

end Tree

namespace View

variable {text : List Char} {c d : Category} {v : View c} {child : View d}

theorem span_isWithin (within : v.tree.IsWithin text) : v.span.IsOf text := within _ .self

theorem isWithin_of_optional (within : v.tree.IsWithin text) (found : v.optional d = some child) :
    child.tree.IsWithin text :=
  within.child (mem_children_of_optional found)

theorem isWithin_of_mem_many (within : v.tree.IsWithin text) (member : child ∈ v.many d) :
    child.tree.IsWithin text :=
  within.child (mem_children_of_mem_many member)

theorem ensures_required (within : v.tree.IsWithin text) :
    Ensures (v.required d) fun child => child.tree.IsWithin text :=
  fun _ read => within.child (mem_children_of_required read)

end View

/-- The form of a declaration lies where the declaration does. -/
theorem ShapeDecl.isWithin_of_form {text : List Char} {decl : ShapeDecl} {form : ShapeDecl.Form}
    (within : decl.tree.IsWithin text) (same : ShapeDecl.form decl = form) :
    form.tree.IsWithin text := by
  rw [← same, ShapeDecl.tree_form]
  exact within

/-! ## Values -/

/-- The number is a float, or an integer of 64 signed bits. -/
def Numeric.Fits : Numeric → Prop
  | .integer n => Decimal.IsSigned64 n
  | .float _ => True

/-- An integer with more bits is read as a float. -/
theorem Numeric.fits_of_ofText? {text : String} {n : Numeric}
    (read : Numeric.ofText? text = some n) : n.Fits := by
  unfold Numeric.ofText? at read
  simp only at read
  split at read
  · rename_i integer found
    cases read
    split at found
    · cases found
    · obtain ⟨-, checked⟩ := Option.filter_eq_some_iff.mp found
      have bounds := of_decide_eq_true checked
      exact bounds
  · obtain ⟨encoding, -, rfl⟩ := Option.map_eq_some_iff.mp read
    exact trivial

theorem Numeric.ensures_ofNode (number : Number) :
    Ensures (Numeric.ofNode number) Numeric.Fits := by
  unfold Numeric.ofNode
  cases read : Numeric.ofText? number.text with
  | none => exact .error
  | some n => exact .ok (fits_of_ofText? read)

namespace Value

/-- All integers in a value have 64 signed bits. -/
inductive Fits : Value → Prop
  | string {text : String} : Fits (.string text)
  | shapeId {id : String} : Fits (.shapeId id)
  | number {n : Numeric} : n.Fits → Fits (.number n)
  | bool {b : Bool} : Fits (.bool b)
  | null : Fits .null
  | array {values : List Value} : (∀ value ∈ values, Fits value) → Fits (.array values)
  | object {entries : List (String × Value)} : (∀ entry ∈ entries, Fits entry.2) →
    Fits (.object entries)

theorem ensures_ofKeyword (keyword : NodeKeyword) : Ensures (Value.ofKeyword keyword) Fits := by
  unfold Value.ofKeyword
  split
  · exact .ok .bool
  · exact .ok .bool
  · exact .ok .null
  · exact .error

theorem ensures_ofString (string : NodeStringValue) : Ensures (Value.ofString string) Fits := by
  refine .read fun content _ => ?_
  cases StringValueKind.form content with
  | block block => exact .read fun _ _ => .pure .string
  | quoted quoted => exact .read fun _ _ => .pure .string
  | shapeId id => exact .pure .shapeId

/-- The integers in an entry have 64 signed bits if those in its value do. -/
theorem ensures_entryOfNode_of_value {entry : NodeObjectKvp}
    (read : ∀ value, NodeObjectKvp.value entry = .ok value → Ensures (Value.ofNode value) Fits) :
    Ensures (Value.entryOfNode entry) fun entry => Fits entry.2 := by
  refine .read fun key _ => .read fun name _ => .read fun value assigned => ?_
  exact (read value assigned).bind fun _ fits => .pure fits

/-- The integers in what is read have 64 signed bits, however deep the value nests. -/
theorem ensures_ofNode (node : NodeValue) : Ensures (Value.ofNode node) Fits := by
  rw [Value.ofNode_eq]
  cases found : NodeValue.content node with
  | error defect => exact .error
  | ok content =>
    have smaller := View.sizeOf_of_required found
    rw [← NodeValueKind.tree_form] at smaller
    simp only
    cases form : NodeValueKind.form content with
    | array elements =>
      rw [form] at smaller
      have inner : sizeOf elements.tree < sizeOf node.tree := smaller
      refine (Ensures.mapM ?_).bind fun values each => .ok (.array each)
      intro value member
      have below := View.sizeOf_of_mem_many member
      exact ensures_ofNode value
    | object record =>
      rw [form] at smaller
      have inner : sizeOf record.tree < sizeOf node.tree := smaller
      refine (Ensures.mapM ?_).bind fun entries each => .ok (.object each)
      intro entry member
      have below := View.sizeOf_of_mem_many member
      apply ensures_entryOfNode_of_value
      intro value assigned
      have farBelow := View.sizeOf_of_required assigned
      exact ensures_ofNode value
    | number literal =>
      intro value read
      obtain ⟨n, known, rfl⟩ := Outcome.map_eq_ok_iff.mp read
      exact .number (Numeric.ensures_ofNode literal n known)
    | keyword word => exact ensures_ofKeyword word
    | string text => exact ensures_ofString text
termination_by sizeOf node.tree
decreasing_by
  · omega
  · omega

theorem ensures_entryOfNode (entry : NodeObjectKvp) :
    Ensures (Value.entryOfNode entry) fun entry => Fits entry.2 :=
  ensures_entryOfNode_of_value fun value _ => ensures_ofNode value

/-- An integer that is read from a fitting value has 64 signed bits. -/
theorem Fits.of_number? {value : Value} {n : Int} (fits : value.Fits)
    (read : value.number?.bind Numeric.integer? = some n) : Decimal.IsSigned64 n := by
  cases fits with
  | number known =>
    rename_i number
    cases number with
    | integer =>
      cases read
      exact known
    | float => cases read
  | string | shapeId | bool | null | array | object => cases read

end Value

/-! ## Traits -/

/-- All integers in the body of a trait have 64 signed bits. -/
inductive TraitBody.Fits : TraitBody → Prop
  | value {value : Value} : value.Fits → Fits (.value value)
  | entries {entries : List (String × Value)} : (∀ entry ∈ entries, entry.2.Fits) →
    Fits (.entries entries)

theorem TraitBody.Fits.of_field? {body : TraitBody} {key : String} {value : Value}
    (fits : body.Fits) (found : body.field? key = some value) : value.Fits := by
  obtain ⟨entries, has, found⟩ := Option.bind_eq_some_iff.mp found
  obtain ⟨entry, first, rfl⟩ := Option.map_eq_some_iff.mp found
  have member := List.mem_reverse.mp (List.mem_of_find?_eq_some first)
  cases fits with
  | entries each =>
    cases has
    exact each entry member
  | value fits =>
    cases fits with
    | object each =>
      cases has
      exact each entry member
    | string | shapeId | number | bool | null | array => cases has

/-- The trait lies within a text, and all integers in its body have 64 signed bits. -/
structure Trait.IsWithin (text : List Char) (t : Trait) : Prop where
  span : t.span.IsOf text
  body : ∀ body, t.body = some body → body.Fits

namespace Trait

variable {text : List Char}

theorem IsWithin.fits_of_field? {t : Trait} (within : t.IsWithin text) {key : String}
    {value : Value}
    (found : t.field? key = some value) : value.Fits := by
  obtain ⟨body, has, found⟩ := Option.bind_eq_some_iff.mp found
  exact (within.body body has).of_field? found

/-- A trait is read within the text that its application is in. -/
theorem ensures_ofNode {application : TraitApplication}
    (within : application.tree.IsWithin text) :
    Ensures (Trait.ofNode application) fun t => t.IsWithin text := by
  have place := View.span_isWithin within
  refine .read fun written _ => ?_
  cases TraitApplication.body application with
  | none => exact .pure ⟨place, by simp⟩
  | some body =>
    simp only
    cases TraitBodyNode.structure? body with
    | some entries =>
      refine (Ensures.mapM fun entry _ => Value.ensures_entryOfNode entry).bind ?_
      intro entries each
      refine .pure ⟨place, ?_⟩
      intro body same
      cases same
      exact .entries each
    | none =>
      cases TraitBodyNode.value? body with
      | none => exact .pure ⟨place, by simp⟩
      | some node =>
        refine .read fun verbatim _ => (Value.ensures_ofNode node).bind fun value fits => ?_
        refine .pure ⟨place, ?_⟩
        intro body same
        cases same
        exact .value fits

theorem ensures_ofStatements {statements : TraitStatements}
    (within : statements.tree.IsWithin text) :
    Ensures (Trait.ofStatements statements) fun traits => ∀ t ∈ traits, t.IsWithin text :=
  .mapM fun _ member => ensures_ofNode (View.isWithin_of_mem_many within member)

end Trait

/-! ## Indexes -/

/-- Everything in the index lies within a text, and all integers in it have 64 signed bits. -/
structure ShapeIndex.IsWithin (text : List Char) (index : ShapeIndex) : Prop where
  shapes : ∀ entry ∈ index.shapes.entries, entry.2.decl.tree.IsWithin text
  traits : ∀ entry ∈ index.traits.entries, ∀ t ∈ entry.2, t.IsWithin text
  applies : ∀ statement ∈ index.applies, statement.tree.IsWithin text

namespace ShapeIndex

variable {text : List Char} {index : ShapeIndex}

theorem IsWithin.empty (namespaceName : Option String) :
    (ShapeIndex.empty namespaceName).IsWithin text :=
  ⟨by simp [ShapeIndex.empty, Table.empty], by simp [ShapeIndex.empty, Table.empty],
    by simp [ShapeIndex.empty]⟩

/-- Declaring a shape of the text keeps the index within it. -/
theorem ensures_declare {statement : ShapeStatement} (holds : index.IsWithin text)
    (within : statement.tree.IsWithin text) :
    Ensures (index.declare statement) fun next => next.IsWithin text := by
  refine (View.ensures_required within).bind fun decl declWithin => ?_
  refine .read fun name _ => .read fun category _ => ?_
  refine (View.ensures_required within).bind fun statements statementsWithin => ?_
  refine (Trait.ensures_ofStatements statementsWithin).bind fun traits each => .pure ?_
  refine ⟨?_, ?_, holds.applies⟩
  · intro entry member
    rcases Table.mem_entries_insert member with old | rfl
    · exact holds.shapes entry old
    · exact declWithin
  · intro entry member
    rcases Table.mem_entries_insert member with old | rfl
    · exact holds.traits entry old
    · exact each

/-- What is declared in a document lies within it, step by step. -/
theorem ensures_ofStatements? (namespaceName : Option String)
    {statements? : Option ShapeStatements}
    (within : ∀ statements, statements? = some statements → statements.tree.IsWithin text) :
    Ensures (ofStatements? namespaceName statements?) fun index => index.IsWithin text := by
  cases statements? with
  | none => exact .pure (.empty namespaceName)
  | some statements =>
    have inside := within statements rfl
    have declared : Ensures
        ((ShapeStatements.shapes statements).foldlM declare (ShapeIndex.empty namespaceName))
        fun index => index.IsWithin text := by
      refine .foldlM (.empty namespaceName) ?_
      intro index holds statement member
      exact ensures_declare holds (View.isWithin_of_mem_many inside member)
    refine declared.bind fun index holds => .pure ⟨holds.shapes, holds.traits, ?_⟩
    intro statement member
    exact View.isWithin_of_mem_many inside member

/-- The index of a document of the text is within it. -/
theorem ensures_ofIdl {idl : Idl} (within : idl.tree.IsWithin text) :
    Ensures (ShapeIndex.ofIdl idl) fun index => index.IsWithin text := by
  refine (View.ensures_required within).bind fun shapes inside => ?_
  have indexed (namespaceName : Option String) :=
    ensures_ofStatements? namespaceName fun _ => View.isWithin_of_optional inside
  cases ShapeSection.namespaceStatement shapes with
  | none => exact indexed none
  | some statement => exact .read fun namespaceName _ => indexed namespaceName

/-- The records of such an index are within the text. -/
theorem IsWithin.record (holds : index.IsWithin text) {category : ShapeCategory}
    {record : ShapeRecord} (member : record ∈ index.records category) :
    record.decl.tree.IsWithin text := by
  obtain ⟨name, inside⟩ := mem_records_iff.mp member
  exact holds.shapes _ inside

theorem IsWithin.found (holds : index.IsWithin text) {category : ShapeCategory} {id : String}
    {record : ShapeRecord} (found : index.find? category id = some record) :
    record.decl.tree.IsWithin text :=
  holds.record (mem_records_of_find? found)

theorem IsWithin.lookedUp (holds : index.IsWithin text) {id : String} {record : ShapeRecord}
    (found : index.lookup? id = some record) : record.decl.tree.IsWithin text := by
  obtain ⟨category, -, found⟩ := List.exists_of_findSome?_eq_some found
  exact holds.found found

theorem IsWithin.traitsOf (holds : index.IsWithin text) (id : String) :
    ∀ t ∈ index.traitsOf id, t.IsWithin text := by
  intro t member
  unfold ShapeIndex.traitsOf at member
  cases found : (index.localName? id).bind index.traits.get? with
  | none =>
    rw [found] at member
    cases member
  | some traits =>
    rw [found] at member
    obtain ⟨name, -, stored⟩ := Option.bind_eq_some_iff.mp found
    exact holds.traits _ (Table.mem_entries_of_get? stored) t member

end ShapeIndex

end ServiceIdl
