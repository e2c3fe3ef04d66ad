import ServiceIdl.Proofs.Syntax.Accepted

/-!
# Trees follow the grammar

The tree of an accepted text covers the text, its nodes nest, and the children of
each node are of kinds that the body of its rule generates
(`documentTree_nests_and_follows_grammar`).
-/

namespace ServiceIdl

open Text (byteLength)

/-- The rules of ids are atomic, and made of parts of ids. -/
theorem Rule.idParts_of_ofRule_mem {name : Rule}
    (id : Kind.ofRule name ∈ [.shapeId, .namespaceName, .absoluteRootShapeId]) :
    name.modifier.inner .loose = .atomic ∧ ∀ part ∈ name.body.rules, part ∈ Rule.idParts := by
  have checked : ∀ name ∈ Rule.all,
      Kind.ofRule name ∈ [Kind.shapeId, .namespaceName, .absoluteRootShapeId] →
      name.modifier.inner .loose = .atomic ∧ ∀ part ∈ name.body.rules, part ∈ Rule.idParts := by
    decide
  exact checked name (mem_all name) id

/-- A node of a document. It is no trivia; its children lie inside it, one behind the
other; their kinds are generated by the body of the rule of the node; and inside ids
there are identifiers only. -/
structure Tree.FollowsGrammar (node : Tree) : Prop where
  notable : node.kind.isTrivia = false
  within : ∀ child ∈ node.children, node.span.start ≤ child.span.start ∧
    child.span.start ≤ child.span.stop ∧ child.span.stop ≤ node.span.stop
  apart : node.children.Pairwise fun earlier later => earlier.span.stop ≤ later.span.start
  generated : ∃ name, Kind.ofRule name = node.kind ∧
    Generates (name.modifier.inner .loose) name.body node.childKinds
  identifiers : node.kind ∈ [.shapeId, .namespaceName, .absoluteRootShapeId] →
    ∀ kind ∈ node.childKinds, kind = .identifier

/-- The nodes of a document nest and follow the grammar. -/
theorem Tree.IsDocument.followsGrammar {text : List Char} {tree node : Tree}
    (document : tree.IsDocument text) (occurs : node.Occurs tree) (isNode : node.isNode = true) :
    node.FollowsGrammar := by
  have stands := document.isMatch node occurs isNode
  obtain ⟨apart, within⟩ := ((document.sits.of_occurs occurs).tiles isNode).pairwise
  refine ⟨stands.notable, ?_, apart, stands.generates, ?_⟩
  · intro child member
    have childSits := document.sits.of_occurs ((Tree.Occurs.inside member .self).trans occurs)
    obtain ⟨before, after, -, -, stop⟩ := childSits.holds
    have bounds := within child member
    exact ⟨bounds.1, by omega, bounds.2⟩
  · intro id
    obtain ⟨name, kind, generated⟩ := stands.generates
    rw [← kind] at id
    obtain ⟨atomic, parts⟩ := Rule.idParts_of_ofRule_mem id
    rw [atomic] at generated
    exact generated.eq_identifier parts

/-- A text that the grammar accepts has a tree with a document as its root, which
spans the whole text and holds it, and all nodes of the tree follow the grammar. -/
theorem documentTree_nests_and_follows_grammar {text : String} {events : List Event}
    (accepted : documentEvents text = .ok events) :
    ∃ tree, documentTree text = .ok (.ok tree) ∧
      tree.kind = .idl ∧ tree.span = ⟨0, byteLength text.toList⟩ ∧ tree.text = text ∧
      ∀ node, Tree.Occurs node tree → node.isNode = true → node.FollowsGrammar := by
  obtain ⟨tree, made, document⟩ := exists_documentTree accepted
  refine ⟨tree, made, document.kind, document.span, String.toList_inj.mp document.text_eq, ?_⟩
  intro node occurs isNode
  exact document.followsGrammar occurs isNode

/-- A document with an import and a list whose member names a member of another
shape. -/
def listDocument : String := "namespace a\nuse b#C\nlist L { m: a.b#T$n }"

/-- The tree of such a document: it spans the whole text, and every node in it follows the
grammar. -/
theorem documentTree_listDocument :
    ∃ events, documentEvents listDocument = .ok events ∧
      ∃ tree, documentTree listDocument = .ok (.ok tree) ∧
        tree.kind = .idl ∧ tree.span = ⟨0, byteLength listDocument.toList⟩ ∧
        tree.text = listDocument ∧
        ∀ node, Tree.Occurs node tree → node.isNode = true → node.FollowsGrammar := by
  have recognised : (documentEvents listDocument).isOk = true := by decide +kernel
  obtain ⟨events, accepted⟩ := Outcome.exists_ok_of_isOk recognised
  exact ⟨events, accepted, documentTree_nests_and_follows_grammar accepted⟩

end ServiceIdl
