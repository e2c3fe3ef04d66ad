import ServiceIdl.Proofs.Resolve.Bare
import ServiceIdl.Proofs.Resolve.Success
import ServiceIdl.Proofs.Grammar.Alphabet
import ServiceIdl.Proofs.Syntax.Spacing

/-!
# Spacing does not matter

Blanks, tabs and commas are one kind of white space. Texts that differ in nothing else
are recognised alike, and have the same resolution unless they differ inside quotes
(`resolve_eq_of_spacedAlike`). Outside quotes no word has a spacing character
(`wordAlphabet`), so the trees of such texts are equal when bare.
-/

namespace ServiceIdl

open Text (Holds byteLength)

/-! ## Words -/

/-- Everything but spacing characters, and the rules of words without quotes. -/
def wordAlphabet : Peg.Alphabet Rule where
  allows c := !Text.isSpacing c
  classes members := members != .any
  rules name := [.identifier, .identifierStart, .identifierChars, .namespaceName,
    .absoluteRootShapeId, .shapeId, .simpleTypeName, .enumTypeName, .aggregateTypeName,
    .entityTypeName, .number, .nodeKeyword].contains name

/-- The rules of words call only one another, and their classes have no other characters. -/
theorem wordAlphabet_closed : wordAlphabet.Closed documentGrammar where
  classes := by
    intro members c has member
    cases spacing : Text.isSpacing c with
    | false =>
      simp only [wordAlphabet, spacing]
      rfl
    | true =>
      revert has member
      rcases Text.isSpacing_iff.mp spacing with rfl | rfl | rfl <;> cases members <;> decide
  rules := by
    intro name
    cases name <;> decide

/-- A word without quotes has a rule of the alphabet. -/
theorem Kind.exists_rule_of_isWord {kind : Kind} (word : kind.isWord = true) :
    kind = .quotedText ∨ kind = .textBlock ∨
      ∃ name, kind = .ofRule name ∧ name.modifier ≠ .plain ∧ wordAlphabet.rules name = true := by
  simp only [Kind.isWord, List.contains_iff_mem, List.mem_cons, List.not_mem_nil, or_false] at word
  rcases word with rfl | rfl | rfl | rfl | rfl | rfl | rfl | rfl | rfl | rfl | rfl | rfl
  · exact .inr (.inr ⟨.identifier, rfl, by decide, by decide⟩)
  · exact .inr (.inr ⟨.namespaceName, rfl, by decide, by decide⟩)
  · exact .inr (.inr ⟨.absoluteRootShapeId, rfl, by decide, by decide⟩)
  · exact .inr (.inr ⟨.shapeId, rfl, by decide, by decide⟩)
  · exact .inr (.inr ⟨.simpleTypeName, rfl, by decide, by decide⟩)
  · exact .inr (.inr ⟨.enumTypeName, rfl, by decide, by decide⟩)
  · exact .inr (.inr ⟨.aggregateTypeName, rfl, by decide, by decide⟩)
  · exact .inr (.inr ⟨.entityTypeName, rfl, by decide, by decide⟩)
  · exact .inr (.inr ⟨.number, rfl, by decide, by decide⟩)
  · exact .inr (.inr ⟨.nodeKeyword, rfl, by decide, by decide⟩)
  · exact .inl rfl
  · exact .inr (.inl rfl)

/-- Two texts have no different characters inside the quotes of a tree. -/
def Tree.QuotesAgree (text other : List Char) (tree : Tree) : Prop :=
  ∀ part, Occurs part tree → part.kind = .quotedText ∨ part.kind = .textBlock →
    ∀ offset, part.span.start ≤ offset → offset < part.span.stop →
      Text.charAt? text offset = Text.charAt? other offset

/-- If texts that differ in their spacing only agree inside quotes, they have the same
words. -/
theorem Tree.IsDocument.wordsAgree {text other : List Char} {tree : Tree}
    (document : tree.IsDocument text) (same : Text.uniform text = Text.uniform other)
    (quotes : tree.QuotesAgree text other) : tree.WordsAgree text other := by
  intro part occurs word a b here there
  have alike : Text.uniform a = Text.uniform b := by
    have standing := there.uniform
    rw [← same] at standing
    exact here.uniform.unique standing
  have quoted (quote : part.kind = .quotedText ∨ part.kind = .textBlock) : a = b := by
    have length : byteLength a = byteLength b := by
      rw [← Text.byteLength_uniform, alike, Text.byteLength_uniform]
    apply Text.eq_of_charAt?_eq length
    intro offset inside
    have stop : part.span.stop = part.span.start + byteLength a := by
      obtain ⟨-, -, -, -, stop⟩ := here
      exact stop
    have agree := quotes part occurs quote (part.span.start + offset) (by omega) (by omega)
    rwa [here.charAt? inside, there.charAt? (by omega)] at agree
  rcases Kind.exists_rule_of_isWord word with quote | quote | ⟨name, kind, dense, allowed⟩
  · exact quoted (.inl quote)
  · exact quoted (.inr quote)
  · apply Text.eq_of_uniform_eq ?_ alike
    have isNode : part.isNode = true := by
      cases part with
      | token => cases word
      | node => rfl
    have stands := document.isMatch part occurs isNode
    have own : part.text.toList = a := (document.sits.of_occurs occurs).holds.unique here
    intro c inside
    rw [← own] at inside
    have plain := stands.allows wordAlphabet_closed kind dense allowed c inside
    exact (Bool.not_eq_true' _).mp plain

/-! ## Documents -/

/-- Two texts of one length that differ only where both have a blank, a tab or a comma are
accepted with the same events, or rejected alike. If they do not differ inside the quotes
of the tree, they have the same resolution. -/
theorem resolve_eq_of_spacedAlike {text other : String}
    (alike : Text.SpacedAlike text.toList other.toList) :
    documentEvents text = documentEvents other ∧
      ((∀ tree, documentTree text = .ok (.ok tree) →
          tree.QuotesAgree text.toList other.toList) →
        ∀ path options, resolve text path options = resolve other path options) := by
  have same := alike.uniform_eq
  have events := documentEvents_eq_of_uniform_eq same
  refine ⟨events, ?_⟩
  intro quotes path options
  have lines := LineIndex.uniform_ofText_eq same
  cases accepted : documentEvents text with
  | error rejection =>
    have rejected : documentTree text = .ok (.error rejection) := by
      delta documentTree
      rw [accepted]
    have rejected' : documentTree other = .ok (.error rejection) := by
      delta documentTree
      rw [← events, accepted]
    have place : (LineIndex.ofText text).locate (.point rejection.offset) =
        (LineIndex.ofText other).locate (.point rejection.offset) := by
      rw [← LineIndex.locate_uniform, lines, LineIndex.locate_uniform]
    unfold resolve
    rw [rejected, rejected']
    simp only [Resolution.ofRejection, Diagnostic.ofReport, Diagnostic.located, place]
  | ok found =>
    obtain ⟨tree, made, document⟩ := exists_documentTree accepted
    obtain ⟨tree', made', document'⟩ := exists_documentTree (events.symm.trans accepted)
    have bare : tree.bare = tree'.bare :=
      Tree.bare_eq_of_uniform_eq (Tree.uniform_eq_of_documentTree same made made') document.sits
        document'.sits (document.wordsAgree same (quotes tree made))
    have resolved := resolve_tree_bare tree (.ofText text) path options
    rw [bare, lines, resolve_tree_bare] at resolved
    unfold resolve
    rw [made, made']
    exact congrArg (Except.mapError Fault.tree) resolved.symm

/-- Whether two texts agree inside the quotes that a listing shows. -/
def quotesAgree (text other : List Char) (entries : List Tree.Entry) : Bool :=
  entries.all fun entry =>
    !(entry.kind == .quotedText || entry.kind == .textBlock) ||
      (List.range entry.span.stop).all fun offset =>
        offset < entry.span.start || Text.charAt? text offset == Text.charAt? other offset

/-- Quotes agree if they do at every entry of the listing. -/
theorem Tree.quotesAgree_of_listing {text other : List Char} {tree : Tree}
    (listed : ServiceIdl.quotesAgree text other (tree.listing 0) = true) :
    tree.QuotesAgree text other := by
  intro part occurs quote offset low high
  obtain ⟨entry, member, kind, span⟩ := Tree.exists_entry_of_occurs occurs 0
  have agree := List.all_eq_true.mp listed entry member
  rw [kind, span] at agree
  have quoted : (part.kind == .quotedText || part.kind == .textBlock) = true := by
    rcases quote with quote | quote <;> rw [quote] <;> rfl
  rw [quoted, Bool.not_true, Bool.false_or, List.all_eq_true] at agree
  have here := agree offset (List.mem_range.mpr high)
  simpa [Nat.not_lt.mpr low] using here

/-- A structure with a comma and a blank inside a quoted text. -/
def plainSpacing : String :=
  "namespace a structure S \x7b @pattern(\"a, b\") x: String, y: T \x7d"

/-- The same structure, with other blanks outside the quotes. -/
def oddSpacing : String :=
  "namespace a\tstructure,S,\x7b,@pattern(\"a, b\")\tx: String  y:,T\t\x7d"

/-- Two texts with other blanks and one resolution. -/
theorem resolve_oddSpacing :
    plainSpacing ≠ oddSpacing ∧ Text.SpacedAlike plainSpacing.toList oddSpacing.toList ∧
      documentEvents plainSpacing = documentEvents oddSpacing ∧
      (∃ tree, documentTree plainSpacing = .ok (.ok tree) ∧
        tree.QuotesAgree plainSpacing.toList oddSpacing.toList) ∧
      resolve plainSpacing "a" {} = resolve oddSpacing "a" {} := by
  have alike : Text.SpacedAlike plainSpacing.toList oddSpacing.toList :=
    Text.spacedAlike_iff.mpr (by decide +kernel)
  have computed : ((documentTree plainSpacing).toOption.bind Except.toOption).any
      (fun tree => quotesAgree plainSpacing.toList oddSpacing.toList (tree.listing 0)) = true := by
    decide +kernel
  obtain ⟨tree, found, listed⟩ := (Option.any_eq_true _ _).mp computed
  obtain ⟨outcome, success, accepted⟩ := Option.bind_eq_some_iff.mp found
  have made : documentTree plainSpacing = .ok (.ok tree) := by
    rw [Outcome.eq_ok_of_toOption success, Outcome.eq_ok_of_toOption accepted]
  have quotes := Tree.quotesAgree_of_listing listed
  obtain ⟨events, resolutions⟩ := resolve_eq_of_spacedAlike alike
  refine ⟨by decide, alike, events, ⟨tree, made, quotes⟩, resolutions ?_ "a" {}⟩
  intro other made'
  cases made.symm.trans made'
  exact quotes

end ServiceIdl
