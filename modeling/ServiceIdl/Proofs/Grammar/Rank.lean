import ServiceIdl.Proofs.Peg.Termination
import ServiceIdl.Proofs.Syntax.Accepted

/-!
# Recognition ends

The document grammar has a ranking: the rules that begin with a word or a mark are the
lowest, and node values, which begin with any of their alternatives, the highest
(`documentRanking`). So the bound on the depth of calls is never reached, whatever the
text is (`run_idl_ne_exhausted`), and a text is accepted exactly if it is derived from
the rule of documents (`recognise_eq_ok_iff`).
-/

namespace ServiceIdl

open Peg (Expr Match Derives Ranking)
open Text (byteLength)

namespace Rule

/-- Whether a rule reads a character wherever it matches: all do, except for the end of
the document, the document itself, and what consists of repetitions only. -/
def reads : Rule → Bool
  | endOfInput | idl | identifierChars | controlSection | metadataSection | shapeSection
  | useSection | shapeStatements | traitStatements => false
  | _ => true

/-- How many rules can be called one in front of the other, at most. -/
def level : Rule → Nat
  | identifierStart | controlSection | metadataStatement | namespaceStatement | useStatement
  | applyStatement | mixins | forResource | simpleShape | enumShape | aggregateShape
  | entityShape | operationShape | traitApplication | number => 2
  | identifier | metadataSection | shapeSection | useSection | traitStatements => 3
  | idl | namespaceName | shapeStatement | enumShapeMember | explicitShapeMember
  | operationInput | operationOutput | nodeObjectKey => 4
  | absoluteRootShapeId | shapeStatements | shapeMember | nodeObjectKvp => 5
  | shapeId | traitStructure => 6
  | nodeStringValue => 7
  | nodeValue => 8
  | _ => 1

end Rule

/-- Each level pays for the calls inside one body. -/
def documentRanking : Ranking documentGrammar where
  step := 1024
  trivia := 40
  reads := Rule.reads
  rank name := 32 * name.level
  step_pos := by decide
  reads_body := by
    intro name
    cases name <;> decide
  rounds_body := by
    intro name
    cases name <;> decide
  height_body := by
    intro name
    cases name <;> decide
  rounds_trivia := by decide
  height_trivia := by decide

/-- No text needs more calls than the bound allows. -/
theorem run_idl_ne_exhausted (text : List Char) :
    Peg.run documentGrammar (depthBound text.length) documentContext (.rule .idl)
      (initialState text) ≠ .exhausted := by
  apply documentRanking.run_ne_exhausted rfl
  change 1024 * text.length + 128 ≤ 1024 * (text.length + 1)
  omega

/-- What is derived as a document is accepted, with the matches of the derivation. -/
theorem recognise_of_derives {text : String} {inside : List (Match Rule)}
    (derives : Derives documentGrammar .loose Rule.idl.body 0 text.toList [] inside) :
    recognise text = .ok [.mk .idl 0 (byteLength text.toList) inside] := by
  have whole : Derives documentGrammar .loose (.rule .idl) 0 text.toList []
      [.mk .idl 0 (0 + byteLength text.toList) inside] := .traced (by decide) derives
  obtain ⟨fuel, runs⟩ := whole.exists_run
  obtain ⟨trail, last, matched, traced⟩ :=
    runs (max fuel (depthBound text.toList.length)) (Nat.le_max_left ..) .plain [] .initial
  rw [List.append_nil, Nat.zero_add] at matched
  have bounded := Peg.run_eq_of_le (run_idl_ne_exhausted text.toList)
    (Nat.le_max_right fuel (depthBound text.toList.length))
  have accepted := bounded.symm.trans matched
  unfold recognise
  simp only
  rw [accepted]
  simp only
  rw [traced rfl, Nat.zero_add]
  rfl

/-- A text is accepted exactly if it is derived as a document. -/
theorem recognise_eq_ok_iff {text : String} {ms : List (Match Rule)} :
    recognise text = .ok ms ↔ ∃ inside, ms = [.mk .idl 0 (byteLength text.toList) inside] ∧
      Derives documentGrammar .loose Rule.idl.body 0 text.toList [] inside := by
  constructor
  · exact derives_of_recognise
  · intro derived
    rcases derived with ⟨inside, rfl, derives⟩
    exact recognise_of_derives derives

end ServiceIdl
