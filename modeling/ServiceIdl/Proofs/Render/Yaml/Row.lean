import Mathlib.Logic.Function.Basic
import ServiceIdl.Proofs.Lists
import ServiceIdl.Render.Yaml.Block

/-!
# Lines are told apart

A line ends at its break and nowhere else, so a text of whole lines determines its lines
(`Row.eq_of_flatMap_toList_eq`): the characters of a line are a run that the break ends.
Indentation and marks can be taken off again (`Row.indent_injective`, `hang_injective`).
-/

namespace ServiceIdl.Yaml

open Function (Injective)

/-! ## Whole lines -/

/-- What holds of no break tells a character from the breaks. -/
theorem isBreak_eq_false_of (p : Char → Prop) {c : Char} (holds : p c) (feed : ¬ p '\n')
    (line : ¬ p '\u2028') (paragraph : ¬ p '\u2029') : isBreak c = false := by
  simp only [isBreak, Bool.or_eq_false_iff, decide_eq_false_iff_not]
  refine ⟨⟨?_, ?_⟩, ?_⟩
  · rintro rfl
    exact feed holds
  · rintro rfl
    exact line holds
  · rintro rfl
    exact paragraph holds

/-- The line has no break but the one that ends it. -/
structure Row.IsWhole (row : Row) : Prop where
  chars : ∀ c ∈ row.chars, isBreak c = false
  ending : isBreak row.ending = true

namespace Row

theorem isWhole_line {chars : List Char} (visible : ∀ c ∈ chars, isBreak c = false) :
    (line chars).IsWhole :=
  ⟨visible, rfl⟩

theorem IsWhole.behind {row : Row} (whole : row.IsWhole) {mark : List Char}
    (visible : ∀ c ∈ mark, isBreak c = false) : (row.behind mark).IsWhole :=
  ⟨List.forall_mem_append.mpr ⟨visible, whole.chars⟩, whole.ending⟩

theorem IsWhole.indent {row : Row} (whole : row.IsWhole) : row.indent.IsWhole := by
  unfold Row.indent
  split
  · exact whole
  · exact whole.behind (by simp [isBreak])

/-- A text of whole lines determines its lines. -/
theorem eq_of_flatMap_toList_eq {rows others : List Row} (whole : ∀ row ∈ rows, row.IsWhole)
    (whole' : ∀ row ∈ others, row.IsWhole)
    (same : rows.flatMap toList = others.flatMap toList) : rows = others := by
  induction rows generalizing others with
  | nil =>
    cases others with
    | nil => rfl
    | cons row rest => simp [toList] at same
  | cons row rest ih =>
    cases others with
    | nil => simp [toList] at same
    | cons row' rest' =>
      obtain ⟨here, later⟩ := List.forall_mem_cons.mp whole
      obtain ⟨here', later'⟩ := List.forall_mem_cons.mp whole'
      rw [List.flatMap_cons, List.flatMap_cons, toList, toList, List.append_assoc,
        List.append_assoc] at same
      obtain ⟨chars, behind⟩ := append_inj_of_runs here.chars here'.chars
        (by simpa using here.ending) (by simpa using here'.ending) same
      obtain ⟨ending, behind⟩ := List.cons.inj behind
      rw [ih later later' behind, show row = row' from congrArg₂ Row.mk chars ending]

/-! ## Indentation -/

theorem behind_injective (mark : List Char) : Injective (behind mark) := by
  rintro ⟨chars, ending⟩ ⟨chars', ending'⟩ same
  simpa [behind] using same

theorem indent_injective : Injective indent := by
  rintro ⟨chars, ending⟩ ⟨chars', ending'⟩ same
  cases chars <;> cases chars' <;> simp_all [indent, behind]

/-- An indented line begins with a space, or it is empty. -/
theorem head?_indent (row : Row) : row.indent.chars.head? = none ∨
    row.indent.chars.head? = some ' ' := by
  unfold indent
  split
  · rename_i empty
    exact .inl (by simpa using empty)
  · exact .inr rfl

end Row

/-- Lines behind a mark determine the lines. -/
theorem hang_injective (mark : List Char) : Injective (hang mark) := by
  intro rows others same
  cases rows with
  | nil =>
    cases others with
    | nil => rfl
    | cons row rest => cases same
  | cons row rest =>
    cases others with
    | nil => cases same
    | cons row' rest' =>
      obtain ⟨first, later⟩ := List.cons.inj same
      have rows := (List.map_inj_right fun _ _ same => Row.indent_injective same).mp later
      rw [Row.behind_injective mark first, rows]

/-- Hanging a block on a mark keeps its lines whole. -/
theorem isWhole_of_mem_hang {mark : List Char} (visible : ∀ c ∈ mark, isBreak c = false)
    {rows : List Row} (whole : ∀ row ∈ rows, row.IsWhole) :
    ∀ row ∈ hang mark rows, row.IsWhole := by
  cases rows with
  | nil => exact List.forall_mem_nil _
  | cons first rest =>
    obtain ⟨here, later⟩ := List.forall_mem_cons.mp whole
    refine List.forall_mem_cons.mpr ⟨here.behind visible, List.forall_mem_map.mpr ?_⟩
    exact fun row member => (later row member).indent

/-! ## Lines of a text -/

theorem isBreak_ending_of_mem_rows {text : List Char} {row : Row} (present : row ∈ rows text) :
    isBreak row.ending = true := by
  induction text generalizing row with
  | nil => simp [rows] at present
  | cons c rest ih =>
    unfold rows at present
    split at present
    · rename_i ends
      rcases List.mem_cons.mp present with rfl | later
      · exact ends
      · exact ih later
    · split at present
      · rw [List.mem_singleton.mp present]
        rfl
      · rename_i first others same
        rw [same] at ih
        rcases List.mem_cons.mp present with rfl | later
        · have own : isBreak first.ending = true := ih List.mem_cons_self
          exact own
        · exact ih (List.mem_cons_of_mem _ later)

theorem isWhole_of_mem_rows {text : List Char} : ∀ row ∈ rows text, row.IsWhole :=
  fun _ present => ⟨isBreak_eq_false_of_mem_rows present, isBreak_ending_of_mem_rows present⟩

theorem rows_ne_nil {text : List Char} (nonempty : text ≠ []) : rows text ≠ [] := by
  cases text with
  | nil => exact absurd rfl nonempty
  | cons c rest =>
    unfold rows
    split
    · exact List.cons_ne_nil _ _
    · split <;> exact List.cons_ne_nil _ _

/-- A text that lacks a break at the end has the same lines with one. -/
theorem rows_concat {text : List Char} {last : Char} (visible : isBreak last = false) :
    rows (text ++ [last]) = rows (text ++ [last] ++ ['\n']) := by
  induction text with
  | nil =>
    have feed : isBreak '\n' = true := rfl
    simp [rows, visible, feed, Row.line, Row.behind]
  | cons c rest ih => rw [List.cons_append, List.cons_append, rows, rows, ih]

/-- The lines of a text that lacks a break at the end make up the text with one. -/
theorem flatMap_rows_concat (text : List Char) {last : Char} (visible : isBreak last = false) :
    (rows (text ++ [last])).flatMap Row.toList = text ++ [last] ++ ['\n'] := by
  rw [rows_concat visible, flatMap_rows _ rfl]

end ServiceIdl.Yaml
