import ServiceIdl.Model.Diagnostic

/-!
# What a log keeps of reports

A log that gets reports keeps what it has, and behind that, in the order of their first
reports, the diagnostics that it did not have (`Log.entries_insertReports`). So reports that a
log has seen leave it as it is, whatever it got in between (`Log.insertReports_of_subset`).
-/

namespace ServiceIdl

/-- A location has the offsets of its span. -/
theorem LineIndex.span_eq_of_locate_eq {lines : LineIndex} {span other : Span}
    (same : lines.locate span = lines.locate other) : span = other := by
  have start : span.start = other.start := congrArg Location.startOffset same
  have stop : span.stop = other.stop := congrArg Location.endOffset same
  rcases span with ⟨_, _⟩
  rcases other with ⟨_, _⟩
  cases start
  cases stop
  rfl

namespace Log

variable {path : String} {lines : LineIndex} {reports : List Report}

/-- The diagnostics of reports that a log does not have, each once and in the order of the
reports. -/
def fresh (log : Log) (path : String) (lines : LineIndex) (reports : List Report) :
    List Diagnostic :=
  ((reports.map (.ofReport path lines)).filter fun d => d ∉ log.entries).eraseDups

/-- What is fresh is what the log does not hold yet. -/
theorem mem_fresh_iff {log : Log} {d : Diagnostic} :
    d ∈ log.fresh path lines reports ↔
      (∃ report ∈ reports, d = .ofReport path lines report) ∧ d ∉ log.entries := by
  unfold fresh
  rw [List.mem_eraseDups, List.mem_filter, List.mem_map, decide_eq_true_iff]
  simp only [eq_comm]

/-- A report that the log has already leaves no trace. -/
theorem fresh_cons_of_mem {log : Log} {report : Report}
    (known : Diagnostic.ofReport path lines report ∈ log.entries) :
    log.fresh path lines (report :: reports) = log.fresh path lines reports := by
  unfold fresh
  rw [List.map_cons, List.filter_cons_of_neg (by simpa using known)]

theorem fresh_cons_of_not_mem {log : Log} {report : Report}
    (new : Diagnostic.ofReport path lines report ∉ log.entries) :
    log.fresh path lines (report :: reports) =
      .ofReport path lines report ::
        Log.fresh ⟨log.entries ++ [.ofReport path lines report]⟩ path lines reports := by
  unfold fresh
  rw [List.map_cons, List.filter_cons_of_pos (by simpa using new), List.eraseDups_cons,
    List.filter_filter]
  have alike : (fun d => !d == Diagnostic.ofReport path lines report && d ∉ log.entries) =
      fun d => decide (d ∉ log.entries ++ [.ofReport path lines report]) := by
    funext d
    rw [Bool.eq_iff_iff]
    simp [and_comm]
  rw [alike]

theorem insertReports_cons (log : Log) (report : Report) (rest : List Report) :
    log.insertReports path lines (report :: rest) =
      (log.insert (.ofReport path lines report)).insertReports path lines rest := rfl

theorem insertReports_append (log : Log) (earlier later : List Report) :
    log.insertReports path lines (earlier ++ later) =
      (log.insertReports path lines earlier).insertReports path lines later :=
  List.foldl_append

/-- A log keeps what it has, and the new diagnostics of reports behind it. -/
theorem entries_insertReports (log : Log) (reports : List Report) :
    (log.insertReports path lines reports).entries =
      log.entries ++ log.fresh path lines reports := by
  induction reports generalizing log with
  | nil => simp [insertReports, fresh]
  | cons report rest ih =>
    rw [insertReports_cons, ih, insert]
    split
    · rename_i known
      rw [fresh_cons_of_mem known]
    · rename_i new
      rw [fresh_cons_of_not_mem new, List.append_assoc, List.singleton_append]

theorem nodup_entries_insertReports {log : Log} (distinct : log.entries.Nodup)
    (reports : List Report) : (log.insertReports path lines reports).entries.Nodup := by
  induction reports generalizing log with
  | nil => exact distinct
  | cons report rest ih => exact ih (nodup_entries_insert distinct _)

/-- A log that has the diagnostics of all reports stays as it is. -/
theorem insertReports_of_subset {log : Log}
    (known : ∀ report ∈ reports, Diagnostic.ofReport path lines report ∈ log.entries) :
    log.insertReports path lines reports = log := by
  induction reports with
  | nil => rfl
  | cons report rest ih =>
    have unchanged : log.insert (.ofReport path lines report) = log :=
      if_pos (known report List.mem_cons_self)
    rw [insertReports_cons, unchanged]
    exact ih fun later member => known later (List.mem_cons_of_mem _ member)

/-- A log without earlier diagnostics has each diagnostic of the reports once, in the order of
their first reports. -/
theorem entries_insertReports_empty (reports : List Report) :
    (empty.insertReports path lines reports).entries =
      (reports.map (.ofReport path lines)).eraseDups := by
  have nothing : empty.entries = [] := rfl
  rw [entries_insertReports, fresh, nothing, List.nil_append,
    List.filter_eq_self.mpr fun d _ => decide_eq_true List.not_mem_nil]

/-! ## Looking for diagnostics -/

theorem mem_entries_insertReports_empty {d : Diagnostic} :
    d ∈ (empty.insertReports path lines reports).entries ↔
      ∃ report ∈ reports, Diagnostic.ofReport path lines report = d := by
  rw [entries_insertReports_empty, List.mem_eraseDups, List.mem_map]

/-- What only one of the reports gives, the log of the reports has once. -/
theorem filter_entries_eq_singleton {p : Diagnostic → Bool} {report : Report}
    (reported : report ∈ reports) (here : p (.ofReport path lines report) = true)
    (only : ∀ other ∈ reports, p (.ofReport path lines other) = true → other = report) :
    (empty.insertReports path lines reports).entries.filter p = [.ofReport path lines report] := by
  have distinct : (empty.insertReports path lines reports).entries.Nodup :=
    nodup_entries_insertReports List.nodup_nil reports
  refine List.perm_singleton.mp ((List.perm_ext_iff_of_nodup (distinct.filter p)
    (List.pairwise_singleton _ _)).mpr fun d => ?_)
  rw [List.mem_filter, mem_entries_insertReports_empty, List.mem_singleton]
  constructor
  · rintro ⟨⟨other, member, rfl⟩, found⟩
    rw [only other member found]
  · rintro rfl
    exact ⟨⟨report, reported, rfl⟩, here⟩

/-- What none of the reports gives, the log of the reports does not have. -/
theorem filter_entries_eq_nil {p : Diagnostic → Bool}
    (none : ∀ report ∈ reports, p (.ofReport path lines report) = false) :
    (empty.insertReports path lines reports).entries.filter p = [] := by
  refine List.filter_eq_nil_iff.mpr fun d member => ?_
  obtain ⟨report, reported, rfl⟩ := mem_entries_insertReports_empty.mp member
  simp [none report reported]

end Log

end ServiceIdl
