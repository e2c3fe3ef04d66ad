import ServiceIdl.Model.Finding
import ServiceIdl.Text.LineIndex

/-!
# Diagnostics

A diagnostic is a report with its place worked out and its document named. A
`Log` keeps the diagnostics of a document in the order of their first reports;
one that it already has is not kept again.
-/

namespace ServiceIdl

/-- A message about a place of a document. -/
structure Diagnostic where
  code : Code
  message : String
  severity : Severity
  /-- The document, as the caller named it. -/
  sourcePath : String
  location : Location
deriving DecidableEq, Repr

namespace Diagnostic

/-- The diagnostic with a code and a message at a span, at the severity of the
code. -/
def located (path : String) (lines : LineIndex) (code : Code) (span : Span) (message : String) :
    Diagnostic :=
  { code, message, severity := code.severity, sourcePath := path, location := lines.locate span }

/-- The diagnostic of a report. -/
def ofReport (path : String) (lines : LineIndex) (report : Report) : Diagnostic :=
  Diagnostic.located path lines report.finding.code report.span report.finding.message

/-- Whether the diagnostic is an error, and no warning. -/
def isError (d : Diagnostic) : Bool := d.severity = .error

/-- A diagnostic on one line: its place, severity, code and message. -/
def display (d : Diagnostic) : String :=
  d.sourcePath ++ ":" ++ toString d.location.startLine ++ ":" ++ toString d.location.startCol
    ++ ": " ++ d.severity.name ++ "[" ++ d.code.name ++ "]: " ++ d.message

end Diagnostic

/-- The diagnostics of a document, in the order of their first reports. -/
structure Log where
  entries : List Diagnostic
deriving DecidableEq, Repr

namespace Log

/-- A log without diagnostics. -/
def empty : Log := ⟨[]⟩

/-- Keeps a diagnostic, unless the log already has it. -/
def insert (log : Log) (d : Diagnostic) : Log :=
  if d ∈ log.entries then log else ⟨log.entries ++ [d]⟩

/-- Keeps the diagnostics of reports, in their order. -/
def insertReports (log : Log) (path : String) (lines : LineIndex) (reports : List Report) : Log :=
  reports.foldl (fun log report => log.insert (.ofReport path lines report)) log

/-- How many diagnostics there are. -/
def size (log : Log) : Nat := log.entries.length

/-- How many of the diagnostics are errors. -/
def errorCount (log : Log) : Nat := log.entries.countP Diagnostic.isError

/-! ## Laws -/

/-- What a log has after an insertion is what it had and the diagnostic, old or new. -/
theorem mem_entries_insert {log : Log} {d other : Diagnostic} :
    other ∈ (log.insert d).entries ↔ other ∈ log.entries ∨ other = d := by
  unfold insert
  split
  · rename_i present
    constructor
    · exact Or.inl
    · rintro (old | rfl)
      · exact old
      · exact present
  · simp

/-- No diagnostic is kept twice. -/
theorem nodup_entries_insert {log : Log} (distinct : log.entries.Nodup) (d : Diagnostic) :
    (log.insert d).entries.Nodup := by
  unfold insert
  split
  · exact distinct
  · rename_i absent
    rw [List.nodup_append]
    refine ⟨distinct, by simp, ?_⟩
    rintro other present _ last rfl
    rw [List.mem_singleton.mp last] at present
    exact absent present

end Log

end ServiceIdl
