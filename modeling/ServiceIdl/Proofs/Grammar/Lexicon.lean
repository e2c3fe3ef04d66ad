import ServiceIdl.Proofs.Grammar.Words
import ServiceIdl.Proofs.Peg.Rounds
import ServiceIdl.Proofs.Text.Words

/-!
# The lexicon of the document grammar

The rules of words read exactly the forms of words: `Rule.HasForm` says for each of them
what it reads and what cannot follow, and every derivation from the body of a rule keeps to
it (`Rule.hasForm_of_derives`).

That an identifier or a keyword is over is never asked of the text by itself. For
identifiers it follows from the repetition, which goes on while it can; for keywords from
the lookahead behind them.
-/

namespace ServiceIdl

open Peg (Gap Mode Derives Fails Match Rounds)
open Text (isWordChar EndsWord IsIdentifier IsNamespace IsAbsoluteId IsShapeId IsQuotedText
  IsTextBlock)

namespace Rule

/-- The words of the keyword rules, of those for the names of types, and of the keywords among
values. -/
def vocabulary : Rule → List String
  | .keywordNamespace => ["namespace"]
  | .keywordUse => ["use"]
  | .keywordMetadata => ["metadata"]
  | .keywordApply => ["apply"]
  | .keywordWith => ["with"]
  | .keywordFor => ["for"]
  | .keywordOperation => ["operation"]
  | .simpleTypeName => simpleTypeWords
  | .enumTypeName => ["enum", "intEnum"]
  | .aggregateTypeName => ["list", "map", "union", "structure"]
  | .entityTypeName => ["service", "resource"]
  | .nodeKeyword => ["true", "false", "null"]
  | _ => []

/-- What a rule of words reads, and what is behind it. -/
structure HasForm (name : Rule) (written behind : List Char) : Prop where
  word : name.vocabulary ≠ [] →
    (∃ word ∈ name.vocabulary, written = word.toList) ∧ EndsWord behind
  identifier : name = .identifier → IsIdentifier written ∧ EndsWord behind
  namespaceName : name = .namespaceName → IsNamespace written
  absoluteId : name = .absoluteRootShapeId → IsAbsoluteId written
  shapeId : name = .shapeId → IsShapeId written ∧ ∀ c ∈ written, Text.isBlank c = false ∧ c ≠ ','
  number : name = .number → Decimal.IsLiteral written
  quotedText : name = .quotedText → IsQuotedText written
  textBlock : name = .textBlock → IsTextBlock written

/-- What has the form of a word of the vocabulary is in it. -/
theorem HasForm.mem_vocabulary {name : Rule} {text : String} {behind : List Char}
    (form : name.HasForm text.toList behind) (some : name.vocabulary ≠ []) :
    text ∈ name.vocabulary := by
  obtain ⟨⟨word, member, same⟩, -⟩ := form.word some
  rwa [String.toList_inj.mp same]

variable {mode : Mode} {offset : Nat} {read rest : List Char} {trace : List (Match Rule)}

/-! ## Ends of words -/

/-- One character of a word, in the direction from the class to the grammar. -/
theorem derives_identifierChar {c : Char} (word : isWordChar c = true) :
    Derives documentGrammar mode identifierChar offset [c] rest [] := by
  by_cases alphanum : c.isAlphanum = true
  · exact .left (.char alphanum)
  · have underscore : c = '_' := by simpa [isWordChar, alphanum] using word
    subst underscore
    have other : Fails documentGrammar mode (.char .letterOrDigit) offset ('_' :: rest) := by
      refine .char fun c head => ?_
      cases head
      decide
    exact .right other .literal

/-- Every character read for a word is of the class. -/
theorem isWordChar_of_derives
    (derives : Derives documentGrammar mode identifierChar offset read rest trace) :
    ∀ c ∈ read, isWordChar c = true := by
  cases derives with
  | left letter =>
    cases letter with
    | @char _ _ _ c _ alphanum =>
      have word : isWordChar c = true := Bool.or_eq_true_iff.mpr (.inl alphanum)
      simpa using word
  | right _ underscore =>
    cases underscore
    intro c member
    rw [List.mem_singleton.mp member]
    decide

/-- Where no character of identifiers is read, there is none. -/
theorem endsWord_of_fails (fails : Fails documentGrammar mode identifierChar offset rest) :
    EndsWord rest := by
  intro c head
  obtain ⟨more, rfl⟩ := List.head?_eq_some_iff.mp head
  refine Bool.eq_false_iff.mpr fun word => ?_
  exact (derives_identifierChar word).not_fails fails

/-- A keyword is one of its spellings, and no word goes on behind it. -/
theorem hasWord_of_derives {words : List String} (some : words ≠ [])
    (derives : Derives documentGrammar mode (Rule.word words) offset read rest trace)
    (dense : mode ≠ .loose) : (∃ word ∈ words, read = word.toList) ∧ EndsWord rest := by
  obtain ⟨_, _, _, _, rfl, listed, ended⟩ := derives.items dense
  cases ended with
  | absent fails =>
    rw [List.append_nil]
    exact ⟨exists_mem_of_oneOfTexts (listed.spells dense) some, endsWord_of_fails fails⟩

/-- A rule with a vocabulary is a rule of words. -/
theorem body_of_vocabulary {name : Rule} (some : name.vocabulary ≠ []) :
    name.body = word name.vocabulary ∧ name.modifier = .atomic := by
  cases name <;> first | exact ⟨rfl, rfl⟩ | exact absurd rfl some

/-! ## Identifiers and ids -/

/-- The body of an identifier reads an identifier up to its end. -/
theorem isIdentifier_of_derives
    (derives : Derives documentGrammar .compound Rule.identifier.body offset read rest trace) :
    IsIdentifier read ∧ EndsWord rest := by
  obtain ⟨_, _, _, _, rfl, start, chars⟩ := derives.items (by decide)
  obtain ⟨_, start⟩ := start.body
  obtain ⟨_, chars⟩ := chars.body
  obtain ⟨marks, _, _, _, rfl, underscores, letter⟩ := start.items (by decide)
  have underscore : ∀ c ∈ marks, c = '_' := by
    refine (Rounds.of_many underscores (by decide)).forall_mem fun one => ?_
    cases one
    exact fun _ => List.mem_singleton.mp
  -- The characters behind the letter are read while there are any, so none is left behind them.
  have others := Rounds.of_many chars (by decide)
  obtain ⟨_, ended⟩ := others.fails
  cases letter with
  | char alpha =>
    refine ⟨⟨marks, _, _, ?_, underscore, alpha, others.forall_mem isWordChar_of_derives⟩,
      endsWord_of_fails ended⟩
    rw [List.append_assoc, List.singleton_append]

theorem isIdentifier_of_rule
    (derives : Derives documentGrammar mode (.rule .identifier) offset read rest trace) :
    IsIdentifier read := by
  obtain ⟨_, body⟩ := derives.body
  exact (isIdentifier_of_derives body).1

/-- A mark with an identifier behind it. -/
theorem exists_identifier_of_derives {mark : Char} {gap : Gap}
    (derives : Derives documentGrammar mode (.seq gap (.literal [mark]) (.rule .identifier)) offset
      read rest trace) (dense : mode ≠ .loose) :
    ∃ word, read = mark :: word ∧ IsIdentifier word := by
  obtain ⟨_, word, _, _, rfl, literal, name⟩ := derives.items dense
  cases literal
  exact ⟨word, rfl, isIdentifier_of_rule name⟩

/-- Further parts of a namespace, one for each round of the repetition. -/
theorem isNamespace_of_rounds {word : List Char} (is : IsIdentifier word)
    (rounds : Rounds documentGrammar mode (inOrder [text ".", .rule .identifier]) offset read rest)
    (dense : mode ≠ .loose) : IsNamespace (word ++ read) := by
  induction rounds generalizing word with
  | stop =>
    rw [List.append_nil]
    exact .single is
  | round head _ ih =>
    obtain ⟨next, rfl, isNext⟩ := exists_identifier_of_derives head dense
    exact .dotted is (ih isNext)

/-- The rule for namespaces reads nothing but namespaces. -/
theorem isNamespace_of_derives
    (derives : Derives documentGrammar .atomic Rule.namespaceName.body offset read rest trace) :
    IsNamespace read := by
  obtain ⟨_, _, _, _, rfl, head, others⟩ := derives.items (by decide)
  exact isNamespace_of_rounds (isIdentifier_of_rule head) (.of_many others (by decide)) (by decide)

/-- An absolute id is a namespace, a hash mark and an identifier. -/
theorem isAbsoluteId_of_derives
    (derives : Derives documentGrammar .atomic Rule.absoluteRootShapeId.body offset read rest
      trace) : IsAbsoluteId read := by
  obtain ⟨space, _, _, _, rfl, spaced, named⟩ := derives.items (by decide)
  obtain ⟨_, spaced⟩ := spaced.body
  obtain ⟨name, rfl, is⟩ := exists_identifier_of_derives named (by decide)
  exact ⟨space, name, rfl, isNamespace_of_derives spaced, is⟩

/-- A shape id is absolute or relative, with or without a member behind it. -/
theorem isShapeId_of_derives
    (derives : Derives documentGrammar .atomic Rule.shapeId.body offset read rest trace) :
    IsShapeId read := by
  obtain ⟨root, suffix, _, _, rfl, rooted, suffixed⟩ := derives.items (by decide)
  refine ⟨root, suffix, rfl, ?_, ?_⟩
  · cases rooted with
    | left absolute =>
      obtain ⟨_, absolute⟩ := absolute.body
      exact .inr (isAbsoluteId_of_derives absolute)
    | right _ name => exact .inl (isIdentifier_of_rule name)
  · rcases suffixed.ofOpt with member | rfl
    · exact .inr (exists_identifier_of_derives member (by decide))
    · exact .inl rfl

/-! ## Texts -/

/-- One piece of a quoted text is a plain character or an escape. -/
theorem isPiece_of_derives
    (derives : Derives documentGrammar .atomic quotedChar offset read rest trace) :
    Json.IsPiece read := by
  cases derives with
  | left escaped =>
    obtain ⟨_, _, _, _, rfl, mark, one⟩ := escaped.items (by decide)
    cases mark
    cases one
    exact .inl ⟨_, rfl⟩
  | right _ plain =>
    obtain ⟨_, _, _, _, rfl, ahead, one⟩ := plain.items (by decide)
    cases ahead with
    | absent fails =>
      cases one with
      | @char _ _ _ c =>
        refine .inr ⟨c, ?_, ?_, rfl⟩
        · rintro rfl
          have quote : Derives documentGrammar .atomic (oneOfTexts ["\"", "\\"]) offset ['"'] rest
              [] :=
            .left .literal
          exact quote.not_fails fails
        · rintro rfl
          have mark : Derives documentGrammar .atomic (oneOfTexts ["\"", "\\"]) offset ['\\'] rest
              [] :=
            .right (.literal (by simp)) .literal
          exact mark.not_fails fails

theorem isQuotedText_of_derives
    (derives : Derives documentGrammar .atomic Rule.quotedText.body offset read rest trace) :
    IsQuotedText read := by
  obtain ⟨_, _, _, _, rfl, opening, more⟩ := derives.items (by decide)
  obtain ⟨inner, _, _, _, rfl, chars, closing⟩ := more.items (by decide)
  obtain ⟨pieces, rfl, each⟩ := (Rounds.of_many chars (by decide)).exists_pieces isPiece_of_derives
  cases opening
  cases closing
  exact ⟨_, rfl, Text.isQuoted_of_pieces each⟩

/-- A text block stands between two runs of three quotes, with none inside. -/
theorem isTextBlock_of_derives
    (derives : Derives documentGrammar .atomic Rule.textBlock.body offset read rest trace) :
    IsTextBlock read := by
  obtain ⟨_, _, _, _, rfl, opening, more⟩ := derives.items (by decide)
  obtain ⟨inner, _, _, _, rfl, chars, closing⟩ := more.items (by decide)
  cases opening
  cases closing
  have rounds := Rounds.of_many chars (by decide)
  exact ⟨inner, rfl, fun _ _ => rounds.eq_nil_of_mark (by decide)⟩

/-! ## All words -/

/-- What the body of a rule of words reads has the form of these words. -/
theorem hasForm_of_derives {name : Rule}
    (derives : Derives documentGrammar (name.modifier.inner mode) name.body offset read rest
      trace) : name.HasForm read rest where
  word some := by
    obtain ⟨body, atomic⟩ := body_of_vocabulary some
    rw [body, atomic] at derives
    exact hasWord_of_derives some derives (by simp [Peg.Modifier.inner])
  identifier := by
    rintro rfl
    exact isIdentifier_of_derives derives
  namespaceName := by
    rintro rfl
    exact isNamespace_of_derives derives
  absoluteId := by
    rintro rfl
    exact isAbsoluteId_of_derives derives
  shapeId := by
    rintro rfl
    have is := isShapeId_of_derives derives
    exact ⟨is, fun _ => is.isBlank_of_mem⟩
  number := by
    rintro rfl
    exact isLiteral_of_number (derives.spells (by simp [Rule.modifier, Peg.Modifier.inner]))
  quotedText := by
    rintro rfl
    exact isQuotedText_of_derives derives
  textBlock := by
    rintro rfl
    exact isTextBlock_of_derives derives

end Rule

/-- A node has the form of the rule for its kind where it stands. -/
theorem Tree.IsMatch.exists_form {text : List Char} {node : Tree} (stands : node.IsMatch text) :
    ∃ behind, Text.Follows text node.span.start (node.text.toList ++ behind) ∧
      ∀ name, Kind.ofRule name = node.kind → name.HasForm node.text.toList behind := by
  obtain ⟨found, mode, behind, trace, same, notable, -, follows, body, -⟩ := stands
  refine ⟨behind, follows, fun name kind => ?_⟩
  rw [← same] at notable
  have agree : found = name := Rule.eq_of_ofRule_eq (same.trans kind.symm) notable
  rw [← agree]
  exact Rule.hasForm_of_derives body

end ServiceIdl
