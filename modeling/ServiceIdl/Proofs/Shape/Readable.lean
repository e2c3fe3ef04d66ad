import ServiceIdl.Proofs.Syntax.Parts
import ServiceIdl.Shape.Index

/-!
# Values of parts

Every value that stands in a document can be read, however deep it nests: its words
are of the shape that their readers want, and none of its children is missing.
-/

namespace ServiceIdl

open Outcome (Gives Succeeds)

variable {text : List Char}

/-! ## Words -/

namespace QuotedText

theorem succeeds_raw {quoted : QuotedText} (part : quoted.tree.IsPart text) :
    Succeeds (QuotedText.raw quoted) := by
  obtain ⟨_, form⟩ := View.exists_form part .quotedText rfl
  obtain ⟨inner, written, -⟩ := form.quotedText rfl
  refine ⟨String.ofList inner, ?_, trivial⟩
  unfold QuotedText.raw
  rw [between?_eq_some_iff.mpr written]

theorem succeeds_value {quoted : QuotedText} (part : quoted.tree.IsPart text) :
    Succeeds (QuotedText.value quoted) :=
  (succeeds_raw part).bind fun _ => .pure trivial

end QuotedText

/-- A text block of the document has its three quotes at both ends. -/
theorem TextBlock.succeeds_value {block : TextBlock} (part : block.tree.IsPart text) :
    Succeeds (TextBlock.value block) := by
  obtain ⟨_, form⟩ := View.exists_form part .textBlock rfl
  obtain ⟨inner, written, -⟩ := form.textBlock rfl
  have delimited : between? Text.tripleQuote block.text.toList = some inner :=
    between?_eq_some_iff.mpr written
  refine ⟨String.ofList (Text.unescape (dropNewline inner)), ?_, trivial⟩
  unfold TextBlock.value
  rw [← Text.tripleQuote, delimited]

/-- Every number literal of the grammar can be read. -/
theorem Numeric.succeeds_ofNode {number : Number} (part : number.tree.IsPart text) :
    Succeeds (Numeric.ofNode number) := by
  obtain ⟨_, form⟩ := View.exists_form part .number rfl
  obtain ⟨n, known⟩ := Numeric.exists_ofText? (form.number rfl)
  refine ⟨n, ?_, trivial⟩
  unfold Numeric.ofNode
  rw [known]

/-- The words of the grammar are those that have values. -/
theorem Value.succeeds_ofKeyword {keyword : NodeKeyword} (part : keyword.tree.IsPart text) :
    Succeeds (Value.ofKeyword keyword) := by
  obtain ⟨_, form⟩ := View.exists_form part .nodeKeyword rfl
  have listed : keyword.text ∈ ["true", "false", "null"] := form.mem_vocabulary (by decide)
  simp only [List.mem_cons, List.not_mem_nil, or_false] at listed
  unfold Value.ofKeyword
  rcases listed with word | word | word
  · rw [word]
    exact .ok trivial
  · rw [word]
    exact .ok trivial
  · rw [word]
    exact .ok trivial

/-! ## Values -/

/-- A key of the document is an identifier or a quoted text, and both can be read. -/
theorem NodeObjectKey.succeeds_name {key : NodeObjectKey} (part : key.tree.IsPart text) :
    Succeeds (NodeObjectKey.name key) := by
  unfold NodeObjectKey.name
  cases quoted : View.optional key .quotedText with
  | some found =>
    have partQuoted := View.isPart_of_optional part quoted
    exact QuotedText.succeeds_value partQuoted
  | none =>
    refine Succeeds.map View.text ?_
    unfold View.required
    cases bare : View.optional key .identifier with
    | some found => exact .ok trivial
    | none =>
      -- A key is quoted or bare, so one of the two is there.
      obtain ⟨child, member, kind, -⟩ :=
        View.exists_child part (show Category.demands _ [.quotedText, .identifier] from by decide)
      have notQuoted := View.kind_of_optional_eq_none quoted child member
      have notBare := View.kind_of_optional_eq_none bare child member
      rcases List.mem_cons.mp kind with isQuoted | isBare
      · exact absurd (List.mem_singleton.mpr isQuoted) notQuoted
      · exact absurd isBare notBare

/-- A string of the document has one of its two forms. -/
theorem Value.succeeds_ofString {string : NodeStringValue} (part : string.tree.IsPart text) :
    Succeeds (Value.ofString string) := by
  refine (View.gives_required part (by decide)).bind fun content partContent => ?_
  rw [← StringValueKind.tree_form] at partContent
  cases form : StringValueKind.form content with
  | block block =>
    rw [form] at partContent
    exact (TextBlock.succeeds_value partContent).bind fun _ => .pure trivial
  | quoted quoted =>
    rw [form] at partContent
    exact (QuotedText.succeeds_value partContent).bind fun _ => .pure trivial
  | shapeId id => exact .pure trivial

namespace Value

/-- An entry can be read if its value can. -/
theorem succeeds_entryOfNode_of_value {entry : NodeObjectKvp} (part : entry.tree.IsPart text)
    (readable : ∀ value, NodeObjectKvp.value entry = .ok value → value.tree.IsPart text →
      Succeeds (Value.ofNode value)) :
    Succeeds (Value.entryOfNode entry) := by
  refine (View.gives_required part (by decide)).bind fun key partKey => ?_
  refine (NodeObjectKey.succeeds_name partKey).bind fun name => ?_
  obtain ⟨value, assigned, partValue⟩ := View.gives_required part
    (show Category.guarantees _ .nodeValue from by decide)
  unfold NodeObjectKvp.value at readable ⊢
  rw [assigned]
  exact (readable value assigned partValue).bind fun _ => .pure trivial

/-- Every value that stands in a document can be read. -/
theorem succeeds_ofNode (node : NodeValue) (part : node.tree.IsPart text) :
    Succeeds (Value.ofNode node) := by
  obtain ⟨content, found, partContent⟩ := View.gives_required part
    (show Category.guarantees _ .nodeValueKind from by decide)
  have smaller := View.sizeOf_of_required found
  rw [← NodeValueKind.tree_form] at partContent smaller
  rw [Value.ofNode_eq, NodeValue.content, found]
  simp only
  cases form : NodeValueKind.form content with
  | array elements =>
    rw [form] at partContent smaller
    have inner : sizeOf elements.tree < sizeOf node.tree := smaller
    refine (Succeeds.mapM ?_).bind fun _ => .ok trivial
    intro value member
    have below := View.sizeOf_of_mem_many member
    have partValue := View.isPart_of_mem_many partContent member
    exact succeeds_ofNode value partValue
  | object record =>
    rw [form] at partContent smaller
    have inner : sizeOf record.tree < sizeOf node.tree := smaller
    refine (Succeeds.mapM ?_).bind fun _ => .ok trivial
    intro entry member
    have below := View.sizeOf_of_mem_many member
    have partEntry := View.isPart_of_mem_many partContent member
    apply succeeds_entryOfNode_of_value partEntry
    intro value assigned partValue
    have farBelow := View.sizeOf_of_required assigned
    exact succeeds_ofNode value partValue
  | number literal =>
    rw [form] at partContent
    exact (Numeric.succeeds_ofNode partContent).map _
  | keyword word =>
    rw [form] at partContent
    exact succeeds_ofKeyword partContent
  | string string =>
    rw [form] at partContent
    exact succeeds_ofString partContent
termination_by sizeOf node.tree
decreasing_by
  · omega
  · omega

/-- An entry of the document has a key and a value, and both can be read. -/
theorem succeeds_entryOfNode {entry : NodeObjectKvp} (part : entry.tree.IsPart text) :
    Succeeds (Value.entryOfNode entry) :=
  succeeds_entryOfNode_of_value part fun value _ partValue => succeeds_ofNode value partValue

end Value

/-! ## Traits -/

namespace Trait

/-- The raw text of a trait can be read when there is one. -/
theorem succeeds_quotedRaw? {node : NodeValue} (part : node.tree.IsPart text) :
    Succeeds (Trait.quotedRaw? node) := by
  refine (View.gives_required part (by decide)).bind fun content partContent => ?_
  rw [← NodeValueKind.tree_form] at partContent
  cases form : NodeValueKind.form content with
  | string string =>
    rw [form] at partContent
    refine (View.gives_required partContent (by decide)).bind fun inner partInner => ?_
    rw [← StringValueKind.tree_form] at partInner
    cases inside : StringValueKind.form inner with
    | quoted quoted =>
      rw [inside] at partInner
      exact (QuotedText.succeeds_raw partInner).bind fun _ => .pure trivial
    | block | shapeId => exact .pure trivial
  | array | object | number | keyword => exact .pure trivial

/-- A trait application of the document can be read. -/
theorem succeeds_ofNode {application : TraitApplication} (part : application.tree.IsPart text) :
    Succeeds (Trait.ofNode application) := by
  unfold Trait.ofNode
  refine Succeeds.bind ?_ fun written => ?_
  · refine (View.gives_required part (by decide)).bind fun name partName => ?_
    exact (View.gives_required partName (by decide)).bind fun _ _ => .pure trivial
  · cases bodyFound : TraitApplication.body application with
    | none => exact .pure trivial
    | some body =>
      have partBody := View.isPart_of_optional part bodyFound
      simp only
      cases entriesFound : TraitBodyNode.structure? body with
      | some entries =>
        have partEntries := View.isPart_of_optional partBody entriesFound
        refine (Succeeds.mapM ?_).bind fun _ => .pure trivial
        intro entry member
        have partEntry := View.isPart_of_mem_many partEntries member
        exact Value.succeeds_entryOfNode partEntry
      | none =>
        cases valueFound : TraitBodyNode.value? body with
        | none => exact .pure trivial
        | some node =>
          have partNode := View.isPart_of_optional partBody valueFound
          refine (succeeds_quotedRaw? partNode).bind fun _ => ?_
          exact (Value.succeeds_ofNode node partNode).bind fun _ => .pure trivial

/-- All applications in front of a declaration can be read. -/
theorem succeeds_ofStatements {statements : TraitStatements}
    (part : statements.tree.IsPart text) : Succeeds (Trait.ofStatements statements) := by
  apply Succeeds.mapM
  intro application member
  have partApplication := View.isPart_of_mem_many part member
  exact succeeds_ofNode partApplication

end Trait

end ServiceIdl
