import ServiceIdl.Proofs.Resolve.Success
import ServiceIdl.Proofs.Resolve.Targets
import ServiceIdl.Proofs.Shape.Entries
import ServiceIdl.Proofs.Syntax.DocumentTree
import ServiceIdl.Proofs.Syntax.Nesting

/-!
# Objects and their entries

Every object of a document means a list of entries (`NodeObject.Means`): the pairs that its
written entries mean, all of them and in their order. Looking a key up in the object finds a node
exactly if there is a pair with the key, and the node has the value of the last such pair
(`documentTree_objects`).
-/

namespace ServiceIdl

variable {text : List Char} {object : NodeObject} {entries : List (String × Value)}
  {key : String}

namespace NodeObject

/-- The object means the entries. A look-up in it and a look-up among the entries find the
same. -/
structure Means (object : NodeObject) (entries : List (String × Value)) : Prop where
  /-- No written entry is lost, and none is moved. -/
  listed : List.Forall₂ NodeObjectKvp.Means (NodeObject.entries object) entries
  ordered : (NodeObject.entries object).Pairwise fun earlier later =>
    earlier.span.stop ≤ later.span.start
  value : ∀ node content,
    NodeValue.content node = .ok content → NodeValueKind.form content = .object object →
    Value.ofNode node = .ok (.object entries)
  present : ∀ key, (∃ node, NodeObject.get? object key = .ok (some node)) ↔
    ∃ value, (key, value) ∈ entries
  absent : ∀ key, NodeObject.get? object key = .ok none ↔ ∀ value, (key, value) ∉ entries
  last : ∀ key node, NodeObject.get? object key = .ok (some node) →
    ∃ value, Value.ofNode node = .ok value ∧ HasLastEntry entries key value ∧
      TraitBody.field? (.value (.object entries)) key = some value

end NodeObject

/-- An entry binds the key that it means. -/
theorem NodeObjectKvp.Means.exists_binds_iff {entry : NodeObjectKvp} {pair : String × Value}
    (means : NodeObjectKvp.Means entry pair) :
    (∃ node, NodeObjectKvp.Binds key entry node) ↔ pair.1 = key := by
  obtain ⟨written, node, readKey, spells, readNode, -⟩ := means
  have readName := NodeObjectKey.name_eq_ok_iff.mpr spells
  constructor
  · rintro ⟨other, binds⟩
    by_contra different
    exact NodeObjectKvp.not_binds readKey readName different other binds
  · rintro rfl
    exact ⟨node, written, readKey, readName, readNode⟩

section Listed

variable {written : List NodeObjectKvp} (listed : List.Forall₂ NodeObjectKvp.Means written entries)

include listed

/-- The last node with a key has the value of the last entry with it. -/
theorem NodeObjectKvp.exists_value_of_last {node : NodeValue}
    (last : First (NodeObjectKvp.Binds key) written.reverse node) :
    ∃ value, Value.ofNode node = .ok value ∧ HasLastEntry entries key value := by
  obtain ⟨earlier, entry, later, split, binds, behind⟩ := First.exists_append_of_reverse last
  have isLast : IsLast (fun entry => ∃ node, NodeObjectKvp.Binds key entry node) written entry := by
    refine ⟨earlier, later, split, ⟨node, binds⟩, ?_⟩
    rintro other member ⟨node, binds⟩
    exact behind other member node binds
  obtain ⟨⟨name, value⟩, means, isLast⟩ :=
    isLast.exists_of_forall₂ (fun _ _ means => means.exists_binds_iff) listed
  -- The entry at the same place has the key, since the pair that it means has.
  obtain ⟨-, -, -, rfl, -⟩ := id isLast
  obtain ⟨-, node', -, -, readNode, readValue⟩ := means
  obtain ⟨-, -, -, readNode'⟩ := binds
  cases readNode.symm.trans readNode'
  exact ⟨value, readValue, isLast⟩

theorem NodeObjectKvp.exists_last_of_mem {value : Value} (member : (key, value) ∈ entries) :
    ∃ node, First (NodeObjectKvp.Binds key) written.reverse node := by
  obtain ⟨entry, written, means⟩ : ∃ entry ∈ written, NodeObjectKvp.Means entry (key, value) :=
    exists_mem_of_forall₂ listed.flip member
  obtain ⟨node, binds⟩ := means.exists_binds_iff.mpr rfl
  exact First.exists_of_mem (List.mem_reverse.mpr written) binds

end Listed

namespace NodeObject

/-- The look-up in the tree finds the last entry with the key. -/
theorem get?_eq_some_iff (part : object.tree.IsPart text) {node : NodeValue} :
    NodeObject.get? object key = .ok (some node) ↔ NodeObject.HasLast object key node := by
  obtain ⟨found, read, -⟩ := NodeObject.gives_get? part key
  rw [NodeObject.hasLast_iff read, read, Except.ok.injEq]

/-- Every object in the tree of a document means some entries. -/
theorem exists_means {root : Tree} (document : root.IsDocument text)
    (occurs : object.tree.Occurs root) : ∃ entries, object.Means entries := by
  have part : object.tree.IsPart text := document.isPart.of_occurs occurs
  have isNode := Category.isNode_of_mem_kinds object.accepted
  obtain ⟨entries, read, -⟩ :
      Outcome.Succeeds ((NodeObject.entries object).mapM Value.entryOfNode) :=
    .mapM fun entry member => Value.succeeds_entryOfNode (View.isPart_of_mem_many part member)
  have listed := Value.mapM_entryOfNode_eq_ok_iff.mp read
  have lastOf {key : String} {node : NodeValue}
      (found : NodeObject.get? object key = .ok (some node)) :=
    NodeObjectKvp.exists_value_of_last listed ((get?_eq_some_iff part).mp found)
  have present (key : String) : (∃ node, NodeObject.get? object key = .ok (some node)) ↔
      ∃ value, (key, value) ∈ entries := by
    constructor
    · rintro ⟨node, found⟩
      obtain ⟨value, -, earlier, later, split, -⟩ := lastOf found
      exact ⟨value, by simp [split]⟩
    · rintro ⟨value, member⟩
      obtain ⟨node, last⟩ := NodeObjectKvp.exists_last_of_mem listed member
      exact ⟨node, (get?_eq_some_iff part).mpr last⟩
  refine ⟨entries, listed, ?_, ?_, present, ?_, ?_⟩
  · refine (document.followsGrammar occurs isNode).apart.filterMap _ ?_
    intro tree tree' apart entry same entry' same'
    rw [View.span, View.span, View.of?_eq_some_iff.mp same, View.of?_eq_some_iff.mp same']
    exact apart
  · intro node content readContent form
    rw [Value.ofNode_eq, readContent]
    simp only [form, read, Outcome.ok_bind]
  · intro key
    obtain ⟨found, readFound, -⟩ := NodeObject.gives_get? part key
    rw [← not_exists, ← present, readFound]
    cases found <;> simp
  · intro key node found
    obtain ⟨value, readValue, last⟩ := lastOf found
    exact ⟨value, readValue, last, (TraitBody.field?_eq_some_iff_hasLastEntry rfl).mpr last⟩

end NodeObject

/-- Every object in the tree of an accepted text means its entries. -/
theorem documentTree_objects {text : String} {events : List Event}
    (accepted : documentEvents text = .ok events) :
    ∃ tree, documentTree text = .ok (.ok tree) ∧
      ∀ object : NodeObject, object.tree.Occurs tree →
        ∃ entries, NodeObject.Means object entries := by
  obtain ⟨tree, made, document⟩ := exists_documentTree accepted
  exact ⟨tree, made, fun object occurs => NodeObject.exists_means document occurs⟩

/-- A key, written bare, with an escape and in quotes. -/
def keySpellings : String := "metadata m = \x7b a: 1, \"\\u0061\": 2, \"a\": 3 \x7d"

/-- Three entries with one key, of which the last is found. -/
theorem documentTree_objects_keySpellings :
    ∃ tree object entries, documentTree keySpellings = .ok (.ok tree) ∧
      object.tree.Occurs tree ∧ NodeObject.Means object entries ∧
      entries.map Prod.fst = ["a", "a", "a"] ∧
      ∃ node, NodeObject.get? object "a" = .ok (some node) ∧ node.text = "3" := by
  have recognised : (documentEvents keySpellings).isOk = true := by decide +kernel
  obtain ⟨events, accepted⟩ := Outcome.exists_ok_of_isOk recognised
  obtain ⟨tree, made, objects⟩ := documentTree_objects accepted
  have computed : ((documentTree keySpellings).toOption.bind Except.toOption).bind (fun tree =>
      ((tree.level 4).findSome? (View.of? .nodeObject)).map fun object =>
        ((((NodeObject.entries object).mapM Value.entryOfNode).toOption.map
          fun entries => entries.map Prod.fst),
        (NodeObject.get? object "a").toOption.map (Option.map View.text))) =
      some (some ["a", "a", "a"], some (some "3")) := by decide +kernel
  rw [made] at computed
  obtain ⟨object, found, facts⟩ := Option.map_eq_some_iff.mp computed
  obtain ⟨keys, node⟩ := Prod.mk.inj facts
  obtain ⟨part, member, same⟩ := List.exists_of_findSome?_eq_some found
  have occurs : object.tree.Occurs tree := by
    rw [View.of?_eq_some_iff.mp same]
    exact Tree.occurs_of_mem_level member
  obtain ⟨entries, means⟩ := objects object occurs
  rw [Value.mapM_entryOfNode_eq_ok_iff.mpr means.listed] at keys
  obtain ⟨read, readNode, shown⟩ := Option.map_eq_some_iff.mp node
  obtain ⟨last, rfl, written⟩ := Option.map_eq_some_iff.mp shown
  exact ⟨tree, object, entries, made, occurs, means, Option.some.inj keys, last,
    Outcome.eq_ok_of_toOption readNode, written⟩

end ServiceIdl
