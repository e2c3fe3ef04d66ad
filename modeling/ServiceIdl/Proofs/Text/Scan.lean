import Mathlib.Data.List.DropRight
import Mathlib.Data.Prod.Lex
import ServiceIdl.Proofs.Text.Lines
import ServiceIdl.Proofs.Text.Places

/-!
# Lines and columns by a direct scan

The line of an offset is the number of line feeds in front of it, and its column the number
of characters behind the last of them (`LineCol.behind`). A line index finds the same without
reading the whole front of the text (`LineIndex.lineCol_byteLength`), so a span of a text is
located where a reader would count it (`LineIndex.isExact_locate`). The order of places in a
text is that of their lines and columns, and no place has those of another
(`LineIndex.lineCol_scans`).
-/

namespace ServiceIdl

open Text (byteLength)

/-! ## The scan -/

namespace LineCol

/-- The line and column behind a front of a text. -/
def behind (front : List Char) : LineCol :=
  ⟨front.count '\n', (front.rtakeWhile (· ≠ '\n')).length⟩

/-- The line and column behind one more character. -/
def next (place : LineCol) (c : Char) : LineCol :=
  if c = '\n' then ⟨place.line + 1, 0⟩ else ⟨place.line, place.col + 1⟩

theorem behind_concat (front : List Char) (c : Char) :
    behind (front ++ [c]) = (behind front).next c := by
  unfold behind next
  by_cases feed : c = '\n'
  · simp [feed]
  · simp [feed]

/-- The scan can be made character by character. -/
theorem foldl_next (front : List Char) : front.foldl next ⟨0, 0⟩ = behind front := by
  induction front using List.reverseRecOn with
  | nil => rfl
  | append_singleton front c ih => rw [List.foldl_concat, ih, behind_concat]

/-- Every character moves the place on, in the order of lines and then columns. -/
theorem toLex_lt_next (place : LineCol) (c : Char) :
    toLex (place.line, place.col) < toLex ((place.next c).line, (place.next c).col) := by
  rw [Prod.Lex.toLex_lt_toLex]
  unfold next
  split
  · exact .inl (Nat.lt_succ_self _)
  · exact .inr ⟨rfl, Nat.lt_succ_self _⟩

/-- A longer front does not end earlier in the order of lines and columns. -/
theorem toLex_behind_le (front more : List Char) :
    toLex ((behind front).line, (behind front).col) ≤
      toLex ((behind (front ++ more)).line, (behind (front ++ more)).col) := by
  induction more using List.reverseRecOn with
  | nil => rw [List.append_nil]
  | append_singleton more c ih =>
    rw [← List.append_assoc, behind_concat]
    exact ih.trans (toLex_lt_next _ c).le

/-- A front that is longer by a character ends later. -/
theorem toLex_behind_lt (front : List Char) {more : List Char} (some : more ≠ []) :
    toLex ((behind front).line, (behind front).col) <
      toLex ((behind (front ++ more)).line, (behind (front ++ more)).col) := by
  have shorter := toLex_behind_le front more.dropLast
  have last := toLex_lt_next (behind (front ++ more.dropLast)) (more.getLast some)
  rw [← behind_concat, List.append_assoc, List.dropLast_concat_getLast] at last
  exact shorter.trans_lt last

end LineCol

/-! ## The line index -/

namespace LineIndex

theorem start_linesFrom (start offset : Nat) (read text : List Char) :
    (linesFrom start offset read text).1.start = start := by
  induction text generalizing offset read with
  | nil => rfl
  | cons c rest ih =>
    unfold linesFrom
    split
    · rfl
    · exact ih _ _

/-- What has been read of a line stays at its front. -/
theorem exists_chars_linesFrom (start offset : Nat) (read text : List Char) :
    ∃ more, (linesFrom start offset read text).1.chars = read.reverse ++ more := by
  induction text generalizing offset read with
  | nil => exact ⟨[], (List.append_nil _).symm⟩
  | cons c rest ih =>
    unfold linesFrom
    split
    · exact ⟨[c], List.reverse_cons⟩
    · obtain ⟨more, same⟩ := ih (offset + c.utf8Size) (c :: read)
      exact ⟨c :: more, by rw [same, List.reverse_cons, List.append_assoc]; rfl⟩

/-- A further line begins behind the place that is read. -/
theorem lt_start_of_mem_linesFrom {start offset : Nat} {read text : List Char} {line : Line}
    (member : line ∈ (linesFrom start offset read text).2) : offset < line.start := by
  induction text generalizing start offset read with
  | nil => cases member
  | cons c rest ih =>
    unfold linesFrom at member
    split at member
    · rcases List.mem_cons.mp member with rfl | later
      · rw [start_linesFrom]
        exact Nat.lt_succ_self offset
      · exact Nat.lt_of_succ_lt (ih later)
    · exact Nat.lt_of_le_of_lt (Nat.le_add_right _ _) (ih member)

/-- Before all other lines one is on the line at hand. -/
theorem lineAt_of_forall_lt {offset n : Nat} {line : Line} {others : List Line}
    (behind : ∀ next ∈ others, offset < next.start) : lineAt offset n line others = (n, line) := by
  cases others with
  | nil => rfl
  | cons next others =>
    have later := behind next List.mem_cons_self
    rw [lineAt, if_neg (Nat.not_le.mpr later)]

/-- The line on which the reading stands has the column of what is read of it. -/
theorem column_linesFrom {start offset : Nat} {read : List Char}
    (reached : offset = start + byteLength read.reverse) (text : List Char) :
    (linesFrom start offset read text).1.column offset = read.length := by
  obtain ⟨more, same⟩ := exists_chars_linesFrom start offset read text
  have cut : Text.cut? (offset - start) (read.reverse ++ more) = some (read.reverse, more) :=
    Text.cut?_eq_some_iff.mpr ⟨rfl, by omega⟩
  rw [Line.column, start_linesFrom, same, cut]
  exact List.length_reverse

/-- From the place that is reached, the line behind a further front of the text is found
together with its number. -/
theorem exists_lineAt_linesFrom {start offset : Nat} (n : Nat) {read : List Char}
    (reached : offset = start + byteLength read.reverse) (front rest : List Char) :
    ∃ line,
      lineAt (offset + byteLength front) n (linesFrom start offset read (front ++ rest)).1
        (linesFrom start offset read (front ++ rest)).2 =
          ((front.foldl LineCol.next ⟨n, read.length⟩).line, line) ∧
      line.column (offset + byteLength front) =
        (front.foldl LineCol.next ⟨n, read.length⟩).col := by
  -- A line feed begins a new line in the scan as in the index.
  induction front generalizing start offset n read with
  | nil =>
    have last : lineAt offset n (linesFrom start offset read rest).1
        (linesFrom start offset read rest).2 = (n, (linesFrom start offset read rest).1) :=
      lineAt_of_forall_lt fun _ member => lt_start_of_mem_linesFrom member
    exact ⟨_, last, column_linesFrom reached rest⟩
  | cons c front ih =>
    rw [byteLength, List.cons_append, List.foldl_cons, ← Nat.add_assoc]
    by_cases feed : c = '\n'
    · subst feed
      have further := @ih (offset + 1) (offset + 1) (n + 1) [] rfl
      have passed : (linesFrom (offset + 1) (offset + 1) [] (front ++ rest)).1.start ≤
          offset + 1 + byteLength front := by
        rw [start_linesFrom]
        exact Nat.le_add_right _ _
      have one : '\n'.utf8Size = 1 := rfl
      rw [one, LineCol.next, if_pos rfl, linesFrom, if_pos rfl]
      rwa [lineAt, if_pos passed]
    · have further : offset + c.utf8Size = start + byteLength (c :: read).reverse := by
        rw [List.reverse_cons, Text.byteLength_append, byteLength, byteLength, reached]
        omega
      rw [LineCol.next, if_neg feed, linesFrom, if_neg feed]
      exact ih n further

/-- The line and column of an offset between two characters are those of the scan. -/
theorem lineCol_byteLength {text : String} {front rest : List Char}
    (split : text.toList = front ++ rest) :
    (ofText text).lineCol (byteLength front) = LineCol.behind front := by
  have inside : min (byteLength front) (ofText text).size = byteLength front := by
    change min (byteLength front) (byteLength text.toList) = byteLength front
    rw [split, Text.byteLength_append]
    exact Nat.min_eq_left (Nat.le_add_right _ _)
  obtain ⟨line, found, column⟩ :=
    @exists_lineAt_linesFrom 0 0 0 [] rfl front rest
  rw [← split, Nat.zero_add, List.length_nil, LineCol.foldl_next] at found
  rw [Nat.zero_add, List.length_nil, LineCol.foldl_next] at column
  have here : lineAt (byteLength front) 0 (ofText text).first (ofText text).others =
      ((LineCol.behind front).line, line) := found
  rw [lineCol, inside]
  simp only [here, column]

/-- A place further back in the text has a later line, or a later column of the same line. -/
theorem toLex_lineCol_lt {text : String} {offset later : Nat}
    (boundary : Text.IsBoundary text.toList offset) (boundary' : Text.IsBoundary text.toList later)
    (before : offset < later) :
    toLex (((ofText text).lineCol offset).line, ((ofText text).lineCol offset).col) <
      toLex (((ofText text).lineCol later).line, ((ofText text).lineCol later).col) := by
  obtain ⟨front, rest, split, rfl⟩ := boundary
  obtain ⟨longer, rest', split', rfl⟩ := boundary'
  obtain ⟨between, rfl, -⟩ :=
    Text.exists_append_of_byteLength_le (split.symm.trans split') before.le
  have some : between ≠ [] := by
    rintro rfl
    rw [List.append_nil] at before
    exact Nat.lt_irrefl _ before
  rw [lineCol_byteLength split, lineCol_byteLength split']
  exact LineCol.toLex_behind_lt front some

/-- A line index finds what the scan finds at every place in the text, and past the end what it
finds at the end. Neither number is larger than the length of the text, and the order of the
places is that of their lines and columns. -/
theorem lineCol_scans (text : String) :
    (∀ front rest, text.toList = front ++ rest →
      (ofText text).lineCol (byteLength front) = .behind front) ∧
    (∀ offset, byteLength text.toList < offset →
      (ofText text).lineCol offset = (ofText text).lineCol (byteLength text.toList)) ∧
    (∀ offset, ((ofText text).lineCol offset).line ≤ byteLength text.toList ∧
      ((ofText text).lineCol offset).col ≤ byteLength text.toList) ∧
    ∀ offset other, Text.IsBoundary text.toList offset → Text.IsBoundary text.toList other →
      (offset < other ↔
        toLex (((ofText text).lineCol offset).line, ((ofText text).lineCol offset).col) <
          toLex (((ofText text).lineCol other).line, ((ofText text).lineCol other).col)) := by
  refine ⟨fun front rest split => lineCol_byteLength split, ?_,
    fun offset => ⟨line_le text offset, col_le text offset⟩, ?_⟩
  · intro offset past
    have size : (ofText text).size = byteLength text.toList := rfl
    unfold lineCol
    rw [size, Nat.min_eq_right past.le, Nat.min_self]
  · intro offset other boundary boundary'
    constructor
    · exact toLex_lineCol_lt boundary boundary'
    · intro earlier
      rcases Nat.lt_trichotomy offset other with before | rfl | behind
      · exact before
      · exact absurd earlier (lt_irrefl _)
      · have later := toLex_lineCol_lt boundary' boundary behind
        exact absurd earlier later.asymm

end LineIndex

/-! ## Spans -/

/-- The line and column, both counted from one, are those of the offset, which lies between
two characters of the text. -/
def Text.IsAt (text : List Char) (offset line col : Nat) : Prop :=
  ∃ front rest, text = front ++ rest ∧ byteLength front = offset ∧
    line = front.count '\n' + 1 ∧ col = (front.rtakeWhile (· ≠ '\n')).length + 1

/-- The location is one in the text: its ends are offsets between characters, in their order,
with the lines and columns that they have there. -/
structure Location.IsExact (text : List Char) (location : Location) : Prop where
  ordered : location.startOffset ≤ location.endOffset
  within : location.endOffset ≤ byteLength text
  start : Text.IsAt text location.startOffset location.startLine location.startCol
  stop : Text.IsAt text location.endOffset location.endLine location.endCol
  lines : toLex (location.startLine, location.startCol) ≤
    toLex (location.endLine, location.endCol)

/-- What stands in a text is located exactly. -/
theorem LineIndex.isExact_locate {text : String} {span : Span} {part : List Char}
    (holds : Text.Holds text.toList span part) :
    ((LineIndex.ofText text).locate span).IsExact text.toList := by
  rcases holds with ⟨front, rest, split, start, stop⟩
  have regrouped : text.toList = (front ++ part) ++ rest := by rw [split, List.append_assoc]
  have stop : byteLength (front ++ part) = span.stop := by rw [Text.byteLength_append, start, stop]
  have startPlace := lineCol_byteLength split
  have stopPlace := lineCol_byteLength regrouped
  rw [start] at startPlace
  rw [stop] at stopPlace
  unfold locate
  rw [startPlace, stopPlace]
  refine ⟨?_, ?_, ⟨front, part ++ rest, split, start, rfl, rfl⟩,
    ⟨front ++ part, rest, regrouped, stop, rfl, rfl⟩, ?_⟩
  · change span.start ≤ span.stop
    rw [← start, ← stop, Text.byteLength_append]
    exact Nat.le_add_right _ _
  · change span.stop ≤ byteLength text.toList
    rw [regrouped, Text.byteLength_append, stop]
    exact Nat.le_add_right _ _
  · have ordered := LineCol.toLex_behind_le front part
    rw [Prod.Lex.toLex_le_toLex] at ordered ⊢
    simpa using ordered

end ServiceIdl
