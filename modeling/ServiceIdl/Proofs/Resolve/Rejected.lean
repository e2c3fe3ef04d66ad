import ServiceIdl.Proofs.Peg.Wanted
import ServiceIdl.Proofs.Resolve.Findings
import ServiceIdl.Proofs.Resolve.Placed

/-!
# Texts that are rejected

A text that is no document has an empty model and one diagnostic, which is an error at the
farthest place that was reached and names the rules that were wanted there
(`resolve_reports_rejection`). No lookahead of the grammar calls a rule, so no message says what
was not wanted; and the rule of documents itself was wanted at least, so every message names
some rule. No other text has a diagnostic of this code.
-/

namespace ServiceIdl

open Text (IsBoundary byteLength)

/-! ## Listings -/

/-- A listing has each of its names in it. -/
theorem infix_listing {name : String} {names : List String} (member : name ∈ names) :
    name.toList <:+: (listing names).toList := by
  unfold listing
  split
  · cases member
  · rw [List.mem_singleton.mp member]
  · simp only [String.toList_append]
    rcases List.mem_pair.mp member with rfl | rfl
    · exact ((List.prefix_append _ _).trans (List.prefix_append _ _)).isInfix
    · exact (List.suffix_append _ _).isInfix
  · have some : names ≠ [] := List.ne_nil_of_mem member
    rw [← List.dropLast_append_getLast some, List.mem_append, List.mem_singleton] at member
    simp only [String.toList_append, String.toList_intercalate]
    rcases member with earlier | last
    · refine List.IsInfix.trans ?_ ((List.prefix_append _ _).trans (List.prefix_append _ _)).isInfix
      exact infix_intercalate (List.mem_map_of_mem earlier)
    · rw [List.getLastD_eq_getLast?, List.getLast?_eq_getLast_of_ne_nil some, Option.getD_some,
        ← last]
      exact (List.suffix_append _ _).isInfix

/-! ## Rejections -/

/-- No two rules have the same name. -/
theorem Rule.nodup_names_all : (Rule.all.map Rule.name).Nodup := by decide +kernel

/-- The lookaheads of the grammar are literal texts and classes of characters. -/
theorem documentGrammar_looksAheadRuleless : documentGrammar.LooksAheadRuleless := by
  intro name
  cases name <;> rfl

/-- What was wanted at the place of a rejection: at least one rule, each once, in the order of
the rules. -/
structure Rejection.Wants (rejection : Rejection) : Prop where
  unwanted : rejection.unwanted = []
  some : rejection.wanted ≠ []
  order : rejection.wanted.Sublist Rule.all

/-- The rules that a rejection wants are some, distinct and in the order of the grammar. -/
theorem Rejection.wants {text : String} {rejection : Rejection}
    (rejected : recognise text = .error rejection) : rejection.Wants := by
  unfold recognise at rejected
  simp only at rejected
  split at rejected
  · cases rejected
  · rename_i attempts outcome
    cases rejected
    have outside : documentContext.polarity ≠ .negative := by decide
    have visible : (documentGrammar.modifier .idl).outer documentContext.mode ≠ .atomic := by
      decide
    obtain ⟨unwanted, wanted⟩ :=
      Peg.wanted_ne_nil_of_run documentGrammar_looksAheadRuleless outside visible rfl outcome
    obtain ⟨name, member⟩ := List.exists_mem_of_ne_nil attempts.wanted wanted
    refine ⟨by simp [ofAttempts, unwanted], ?_, List.filter_sublist⟩
    refine List.ne_nil_of_mem (a := name) (List.mem_filter.mpr ⟨name.mem_all, ?_⟩)
    exact List.contains_iff_mem.mpr member
  · rename_i exhausted
    exact absurd exhausted (run_idl_ne_exhausted text.toList)

theorem Rejection.Wants.message {rejection : Rejection} (wants : rejection.Wants) :
    rejection.message = "expected " ++ listing (rejection.wanted.map Rule.name) := by
  have some : rejection.wanted.isEmpty = false := List.isEmpty_eq_false_iff.mpr wants.some
  simp [Rejection.message, wants.unwanted, some]

/-- The message says the name of every rule that was wanted. -/
theorem Rejection.Wants.infix_message {rejection : Rejection} (wants : rejection.Wants)
    {rule : Rule} (member : rule ∈ rejection.wanted) :
    rule.name.toList <:+: rejection.message.toList := by
  rw [wants.message, String.toList_append]
  exact (infix_listing (List.mem_map_of_mem member)).trans (List.suffix_append _ _).isInfix

/-! ## Resolutions -/

/-- The diagnostic of a text that is rejected: an error at a place between two characters or at
an end of the text, which says what was expected there. -/
structure Diagnostic.IsRejection (text path : String) (d : Diagnostic) : Prop where
  code : d.code = .syntaxError
  severity : d.severity = .error
  path : d.sourcePath = path
  place : ∃ offset, IsBoundary text.toList offset ∧ offset ≤ byteLength text.toList ∧
    d.location = (LineIndex.ofText text).locate ⟨offset, offset⟩
  message : ∃ wanted : List Rule, wanted ≠ [] ∧ wanted.Sublist Rule.all ∧
    (wanted.map Rule.name).Nodup ∧ d.message = "expected " ++ listing (wanted.map Rule.name) ∧
    ∀ rule ∈ wanted, rule.name.toList <:+: d.message.toList

/-- The diagnostic of a rejection is one error at its offset. -/
theorem Rejection.isRejection_ofReport {text : String} {rejection : Rejection}
    (rejected : recognise text = .error rejection) (path : String) :
    (Diagnostic.ofReport path (.ofText text)
      ⟨.rejected rejection, .point rejection.offset⟩).IsRejection text path := by
  have boundary := rejection.isBoundary_offset rejected
  have wants := rejection.wants rejected
  refine ⟨rfl, rfl, rfl, ⟨rejection.offset, boundary, boundary.le, rfl⟩, ?_⟩
  refine ⟨rejection.wanted, wants.some, wants.order, ?_, wants.message,
    fun rule => wants.infix_message⟩
  exact Rule.nodup_names_all.sublist (wants.order.map Rule.name)

/-- What is found in a document is never that it is none. -/
theorem ShapeIndex.Finds.code_ne_syntaxError {index : ShapeIndex} {root : Tree} {report : Report}
    (found : index.Finds root report) : report.finding.code ≠ .syntaxError := by
  cases found <;> exact Code.noConfusion

/-- A text that is rejected has the empty model and one diagnostic, which says where and why; a
text that is accepted has no such diagnostic. -/
theorem resolve_reports_rejection (text path : String) (options : Options) :
    ∃ resolution, resolve text path options = .ok resolution ∧
      match documentEvents text with
      | .error _ =>
        resolution.model =
          { sourcePath := path, title := "", majorVersion := options.defaultMajorVersion,
            interfaces := [], types := [], enums := [], unions := [] } ∧
        ∃ d, resolution.diagnostics = [d] ∧ d.IsRejection text path
      | .ok _ => ∀ d ∈ resolution.diagnostics, d.code ≠ .syntaxError := by
  cases accepted : documentEvents text with
  | error rejection =>
    refine ⟨_, resolve_of_rejected accepted path options, rfl, _, rfl, ?_⟩
    have rejected : recognise text = .error rejection := by
      unfold documentEvents at accepted
      cases recognised : recognise text with
      | ok trace =>
        rw [recognised] at accepted
        cases accepted
      | error rejection =>
        rw [recognised] at accepted
        cases accepted
        rfl
    exact rejection.isRejection_ofReport rejected path
  | ok events =>
    obtain ⟨tree, idl, index, model, reports, -, -, -, indexed, -, modelled, resolved⟩ :=
      exists_model_of_accepted accepted path options
    refine ⟨_, resolved, ?_⟩
    intro d kept
    rcases Log.mem_entries_insertReports.mp kept with old | ⟨report, reported, rfl⟩
    · cases old
    · have origin := ShapeIndex.isFrom_ofIdl indexed
      have found := (ShapeIndex.finds_resolveModel origin _ path options _ _ modelled).2 report
        reported
      exact found.code_ne_syntaxError

/-- Behind the name of a service, a clause of mixins or its body is missing. -/
example : ((resolve "namespace a\nservice V" "a" {}).toOption.map fun resolution =>
    resolution.diagnostics.map Diagnostic.display) =
      some ["a:2:10: error[syntax-error]: " ++
        "expected WHITESPACE, COMMENT, kw_with, or node_object"] := by
  decide +kernel

end ServiceIdl
