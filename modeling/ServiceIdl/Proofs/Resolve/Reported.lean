import Mathlib.Data.List.Nodup
import ServiceIdl.Proofs.Resolve.Collector
import ServiceIdl.Proofs.Resolve.Rules

/-!
# Findings are reported once

A structure is walked for its type and again for each operation that has it as input. Into
whatever log the walk goes, it gives the same members, keeps what the log has, and adds what
is new; a later walk adds nothing. So each of its findings stands once among the diagnostics
of a document, which are those of all reports in the order of their first occurrences.
-/

namespace ServiceIdl

open Reporting (bind_eq_ok_iff read_bind_eq_ok_iff)

variable {index : ShapeIndex} {lines : LineIndex} {path : String} {options : Options}

/-! ## Any log -/

/-- What a walk does to a log: it has the same outcome as without earlier diagnostics, keeps
them where they are, puts new ones behind them, and adds nothing to a log that has all of
them already. -/
structure Collecting.Settles {α : Type} (collecting : Collecting α) (outcome : Except Defect α)
    (log : Log) (added : List Diagnostic) : Prop where
  run : collecting.on log = (outcome, ⟨log.entries ++ added⟩)
  blank : (collecting.on .empty).1 = outcome
  nodup : added.Nodup
  new : ∀ d ∈ added, d ∉ log.entries
  again : ∀ later : Log, log.entries ++ added ⊆ later.entries →
    collecting.on later = (outcome, later)

/-- What is mirrored settles on each log: it adds what is new, once, and leaves the rest alone. -/
theorem Collecting.Mirrors.exists_settles {α : Type} {collecting : Collecting α}
    {computation : Reporting α} (mirrors : Mirrors path lines collecting computation) (log : Log) :
    ∃ added, collecting.Settles computation.outcome log added ∧
      ∀ a own, computation = .ok (a, own) → added = log.fresh path lines own := by
  obtain ⟨reports, ran, known⟩ := mirrors
  refine ⟨log.fresh path lines reports, ⟨?_, ?_, ?_, ?_, ?_⟩, ?_⟩
  · rw [ran log, ← Log.entries_insertReports]
  · rw [ran Log.empty]
  · exact (isFirstOccurrences_eraseDups _).nodup
  · exact fun d member => (Log.mem_fresh_iff.mp member).2
  · intro later known
    rw [ran later, Log.insertReports_of_subset]
    intro report member
    apply known
    rw [← Log.entries_insertReports]
    exact Log.mem_entries_insertReports.mpr (.inr ⟨report, member, rfl⟩)
  · intro a own success
    rw [known a own success]

/-! ## Structures -/

namespace ShapeIndex

/-- An operation with a structure as input has its members as parameters, and reports what
they report. -/
theorem resolveMethod_of_input {operation record : ShapeRecord} {id : String} {method : Method}
    {reports : List Report} (named : operation.HasNamedInput id)
    (found : index.find? .structureShape id = some record)
    (success : index.resolveMethod lines operation = .ok (method, reports)) :
    ∃ own others, index.resolveMembers lines record = .ok (method.parameters, own) ∧
      reports = own ++ others := by
  obtain ⟨shape, body, input, form, readBody, given, target, written, readTarget, formTarget,
    rfl⟩ := named
  unfold resolveMethod at success
  rw [form] at success
  obtain ⟨⟨parameters, returnType⟩, _, _, signed, final, rfl⟩ := bind_eq_ok_iff.mp success
  cases final
  obtain ⟨body', readBody', signed⟩ := read_bind_eq_ok_iff.mp signed
  cases readBody.symm.trans readBody'
  obtain ⟨_, own, _, first, behind, rfl⟩ := bind_eq_ok_iff.mp signed
  obtain ⟨_, _, _, -, final, rfl⟩ := bind_eq_ok_iff.mp behind
  cases final
  unfold resolveParameters at first
  rw [given] at first
  obtain ⟨target', readTarget', first⟩ := read_bind_eq_ok_iff.mp first
  cases readTarget.symm.trans readTarget'
  rw [formTarget] at first
  simp only [found] at first
  exact ⟨own, _, first, List.append_assoc ..⟩

/-- Each finding on a structure stands once in a resolution, though it is met for the type of
the structure and for every operation that has it as input. -/
def ReportsOnce (index : ShapeIndex) (path : String) (lines : LineIndex) (record : ShapeRecord)
    (resolution : Resolution) : Prop :=
  ∃ members own, index.resolveMembers lines record = .ok (members, own) ∧
    (∃ type ∈ resolution.model.types, type.name = record.name ∧ type.properties = members) ∧
    (∀ operation ∈ index.records .operation, ∀ id, operation.HasNamedInput id →
      index.find? .structureShape id = some record →
      ∃ method others, index.resolveMethod lines operation = .ok (method, own ++ others) ∧
        method.parameters = members) ∧
    ∀ report ∈ own, resolution.diagnostics.count (.ofReport path lines report) = 1

/-- A structure is reported on once, for its type and for all operations that have it as input. -/
theorem reportsOnce_of_resolveModel {text : List Char} (holds : index.IsOf text)
    {model : ServiceModel} {reports : List Report}
    (success : index.resolveModel lines path options = .ok (model, reports))
    {record : ShapeRecord} (member : record ∈ index.records .structureShape) :
    index.ReportsOnce path lines record
      { model, diagnostics := (Log.empty.insertReports path lines reports).entries } := by
  obtain ⟨_, _, _, _, _, _, -, typed, -, -, -, -, all⟩ := resolveModel_spec success
  obtain ⟨type, own, resolved, isIn, inside⟩ := (Reporting.mapM_eq_ok typed).1 record member
  obtain ⟨named, -, -, members⟩ := resolveStructure_spec resolved
  refine ⟨type.properties, own, members, ⟨type, isIn, named, rfl⟩, ?_, ?_⟩
  · intro operation present id input found
    obtain ⟨method, reports, made, -⟩ :=
      succeeds_resolveMethod holds lines (holds.isDeclaredIn present).1
    obtain ⟨own', others, members', rfl⟩ := resolveMethod_of_input input found made
    obtain ⟨same, rfl⟩ := Prod.mk.inj (Except.ok.inj (members'.symm.trans members))
    exact ⟨method, others, made, same⟩
  · intro report present
    have reported : report ∈ reports := by
      rw [all]
      exact List.mem_append_right _ (List.mem_append_left _ (inside report present))
    refine List.count_eq_one_of_mem (Log.nodup_entries_insertReports List.nodup_nil reports) ?_
    exact Log.mem_entries_insertReports.mpr (.inr ⟨report, reported, rfl⟩)

end ShapeIndex

/-! ## Documents -/

/-- The walk over a structure does not depend on what was reported before and adds only what
is new, and nothing at all when it is made again. The diagnostics of a document are those of
its reports, each once and in the order of the first of them; a structure reports each of its
findings once. -/
theorem resolve_reports_once :
    (∀ (index : ShapeIndex) (path : String) (lines : LineIndex) (record : ShapeRecord)
      (log : Log), ∃ added,
      (index.collectMembers path lines record).Settles
        (index.resolveMembers lines record).outcome log added ∧
      ∀ members own, index.resolveMembers lines record = .ok (members, own) →
        added = log.fresh path lines own) ∧
    ∀ (text path : String) (options : Options),
      ∃ resolution, resolve text path options = .ok resolution ∧
        resolution.diagnostics.Nodup ∧
        ((∃ rejection, documentTree text = .ok (.error rejection) ∧
            resolution = .ofRejection (.ofText text) path options rejection) ∨
          ∃ tree idl index reports, documentTree text = .ok (.ok tree) ∧
            Idl.ofTree tree = .ok idl ∧ ShapeIndex.ofIdl idl = .ok index ∧
            index.resolveModel (.ofText text) path options = .ok (resolution.model, reports) ∧
            IsFirstOccurrences resolution.diagnostics
              (reports.map (Diagnostic.ofReport path (.ofText text))) ∧
            ∀ record ∈ index.records .structureShape,
              index.ReportsOnce path (.ofText text) record resolution) := by
  constructor
  · intro index path lines record log
    exact (ShapeIndex.mirrors_collectMembers record).exists_settles log
  · intro text path options
    cases recognised : documentEvents text with
    | error rejection =>
      refine ⟨_, resolve_of_rejected recognised path options, List.nodup_singleton _, .inl ?_⟩
      refine ⟨rejection, ?_, rfl⟩
      unfold documentTree
      rw [recognised]
    | ok events =>
      obtain ⟨tree, idl, index, model, reports, made, -, root, indexed, holds, modelled,
        resolved⟩ := exists_model_of_accepted recognised path options
      have kept := isFirstOccurrences_eraseDups
        (reports.map (Diagnostic.ofReport path (.ofText text)))
      rw [← Log.entries_insertReports_empty] at kept
      refine ⟨_, resolved, kept.nodup, .inr ?_⟩
      refine ⟨tree, idl, index, reports, made, root, indexed, modelled, kept, ?_⟩
      exact fun record member => ShapeIndex.reportsOnce_of_resolveModel holds modelled member

/-- A structure with two findings, which is the input of two operations. -/
def sharedInput : String :=
  "namespace a\nservice V \x7b operations: [O, P] \x7d\noperation O \x7b input: S \x7d\n" ++
    "operation P \x7b input: S \x7d\nstructure S \x7b\n@documentation(\"x\")\n" ++
    "x: PrimitiveLong\n\x7d"

example : (resolve sharedInput "a" {}).toOption.map (fun resolution =>
    resolution.diagnostics.map Diagnostic.code) = some [.unknownPrimitive, .unknownTrait] := by
  decide +kernel

end ServiceIdl
