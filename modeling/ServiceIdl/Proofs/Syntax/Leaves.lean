import ServiceIdl.Proofs.Grammar.Lexicon

/-!
# The words of a document

Every word of an accepted text has the form of its rule, wherever in the text it stands
(`words_of_documentEvents`). This is said twice. The matches of the recogniser include the
keywords, which no tree has; in the tree, a word is a node, and its text is put together from
the tokens inside it.
-/

namespace ServiceIdl

open Peg (Match)
open Text (byteLength Follows)

/-- The match has the form of its rule: so has the text between its offsets, with what stands
behind it. -/
def Peg.Match.HasForm (text : List Char) : Match Rule → Prop
  | .mk name start stop _ =>
    ∃ written behind, Follows text start (written ++ behind) ∧
      stop = start + byteLength written ∧ name.HasForm written behind

/-- The node stands where its span says, and has the form of the rule for its kind. -/
def Tree.HasForm (text : List Char) (node : Tree) : Prop :=
  ∃ behind, Follows text node.span.start (node.text.toList ++ behind) ∧
    node.span.stop = node.span.start + byteLength node.text.toList ∧
    ∀ name, Kind.ofRule name = node.kind → name.HasForm node.text.toList behind

/-- A match that was read has the form of its rule. -/
theorem Peg.Match.IsRead.hasForm {text : List Char} {m : Match Rule}
    (isRead : m.IsRead documentGrammar text) : m.HasForm text := by
  cases m with
  | mk name start stop children =>
    obtain ⟨mode, written, behind, follows, length, body⟩ := isRead
    exact ⟨written, behind, follows, length, Rule.hasForm_of_derives body⟩

theorem Tree.IsMatch.hasForm {text : List Char} {node : Tree} (stands : node.IsMatch text)
    (sits : node.Sits text) : node.HasForm text := by
  obtain ⟨_, _, _, _, length⟩ := sits.holds
  obtain ⟨behind, follows, form⟩ := stands.exists_form
  exact ⟨behind, follows, length, form⟩

/-- The matches of an accepted text have the forms of their rules. -/
theorem hasForm_of_recognise {text : String} {ms : List (Match Rule)} {m : Match Rule}
    (accepted : recognise text = .ok ms) (occurs : m.Occurs ms) : m.HasForm text.toList := by
  have follows : Follows text.toList 0 (text.toList ++ []) := ⟨[], by simp, rfl⟩
  exact ((traced_of_recognise accepted).of_occurs follows occurs).hasForm

/-- The words of an accepted text have the forms of their rules: identifiers, ids, numbers,
quoted texts, text blocks and keywords, as matches and, keywords apart, as nodes of the tree. -/
theorem words_of_documentEvents {text : String} {events : List Event}
    (accepted : documentEvents text = .ok events) :
    ∃ ms tree, recognise text = .ok ms ∧ events = Event.ofMatches ms ∧
      documentTree text = .ok (.ok tree) ∧
      (∀ m : Match Rule, m.Occurs ms → m.HasForm text.toList) ∧
      ∀ node, Tree.Occurs node tree → node.isNode = true → node.HasForm text.toList := by
  obtain ⟨ms, recognised, rfl⟩ := Outcome.map_eq_ok_iff.mp accepted
  obtain ⟨tree, made, document⟩ := exists_documentTree accepted
  refine ⟨ms, tree, recognised, rfl, made, ?_, ?_⟩
  · intro m occurs
    exact hasForm_of_recognise recognised occurs
  · intro node occurs isNode
    exact (document.isMatch node occurs isNode).hasForm (document.sits.of_occurs occurs)

/-- A document with words of all forms: among them an id with a member, an identifier that
begins with underscores, a quote that is escaped, and quotes in a text block. -/
def wordyDocument : String :=
  "namespace a.b\nuse c#D\n@e(-1.5e3)\n@f(\"say \\\"g\\\"\")\n" ++
    "@h(\"\"\"i \"j\" k\"\"\")\nlist __L9 \x7b m: c#D$n = true \x7d\n"

/-- All words of such a document have their forms, in the events and in the tree. -/
theorem words_of_wordyDocument :
    ∃ events, documentEvents wordyDocument = .ok events ∧
      ∃ ms tree, recognise wordyDocument = .ok ms ∧ events = Event.ofMatches ms ∧
        documentTree wordyDocument = .ok (.ok tree) ∧
        (∀ m : Match Rule, m.Occurs ms → m.HasForm wordyDocument.toList) ∧
        ∀ node, Tree.Occurs node tree → node.isNode = true →
          node.HasForm wordyDocument.toList := by
  have recognised : (documentEvents wordyDocument).isOk = true := by decide +kernel
  obtain ⟨events, accepted⟩ := Outcome.exists_ok_of_isOk recognised
  exact ⟨events, accepted, words_of_documentEvents accepted⟩

end ServiceIdl
