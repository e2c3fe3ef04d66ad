import ServiceIdl.Proofs.Syntax.Layout
import ServiceIdl.Text.LineIndex

/-!
# Spacing characters

Blanks, tabs and commas take one byte each and end no line, so a text in which each of
them is written as a comma (`Text.uniform`) has its characters and its lines at the same
offsets (`cut?_uniform`, `LineIndex.locate_uniform`). Two texts that differ
in spacing characters only are those with one uniform text (`Text.spacedAlike_iff`).
-/

namespace ServiceIdl

namespace Text

/-- The characters that separate the words of a line. -/
def isSpacing (c : Char) : Bool := c = ' ' || c = '\t' || c = ','

/-- A character, with a comma for every spacing character. -/
def uniformChar (c : Char) : Char := if isSpacing c then ',' else c

/-- A text with a comma for every spacing character. -/
def uniform (text : List Char) : List Char := text.map uniformChar

theorem isSpacing_iff {c : Char} : isSpacing c = true ↔ c = ' ' ∨ c = '\t' ∨ c = ',' := by
  simp [isSpacing, or_assoc]

theorem uniformChar_of_isSpacing {c : Char} (spacing : isSpacing c = true) :
    uniformChar c = ',' := by
  rw [uniformChar, if_pos spacing]

theorem uniformChar_of_not_isSpacing {c : Char} (plain : isSpacing c = false) :
    uniformChar c = c := by
  rw [uniformChar, plain]
  rfl

/-- No other character is written as a plain one. -/
theorem uniformChar_eq_iff {c d : Char} (plain : isSpacing d = false) :
    uniformChar c = d ↔ c = d := by
  cases spacing : isSpacing c with
  | false => rw [uniformChar_of_not_isSpacing spacing]
  | true =>
    rw [uniformChar_of_isSpacing spacing]
    constructor
    · rintro rfl
      cases plain
    · rintro rfl
      rw [spacing] at plain
      cases plain

/-- Only spacing characters become equal. -/
theorem uniformChar_inj_iff {c d : Char} :
    uniformChar c = uniformChar d ↔ c = d ∨ isSpacing c = true ∧ isSpacing d = true := by
  cases spacing : isSpacing d with
  | false =>
    rw [uniformChar_of_not_isSpacing spacing, uniformChar_eq_iff spacing]
    simp
  | true =>
    rw [uniformChar_of_isSpacing spacing]
    constructor
    · intro same
      refine .inr ⟨?_, rfl⟩
      cases other : isSpacing c with
      | true => rfl
      | false =>
        rw [uniformChar_of_not_isSpacing other] at same
        rw [same] at other
        cases other
    · rintro (rfl | ⟨other, -⟩)
      · exact uniformChar_of_isSpacing spacing
      · exact uniformChar_of_isSpacing other

@[simp] theorem utf8Size_uniformChar (c : Char) : (uniformChar c).utf8Size = c.utf8Size := by
  cases spacing : isSpacing c with
  | false => rw [uniformChar_of_not_isSpacing spacing]
  | true =>
    rw [uniformChar_of_isSpacing spacing]
    rcases isSpacing_iff.mp spacing with rfl | rfl | rfl <;> decide

@[simp] theorem uniform_nil : uniform [] = [] := rfl

@[simp] theorem uniform_cons (c : Char) (rest : List Char) :
    uniform (c :: rest) = uniformChar c :: uniform rest := rfl

theorem uniform_append (a b : List Char) : uniform (a ++ b) = uniform a ++ uniform b :=
  List.map_append

@[simp] theorem length_uniform (text : List Char) : (uniform text).length = text.length :=
  List.length_map _

@[simp] theorem byteLength_uniform (text : List Char) :
    byteLength (uniform text) = byteLength text := by
  induction text with
  | nil => rfl
  | cons c rest ih => rw [uniform_cons, byteLength, byteLength, ih, utf8Size_uniformChar]

/-- A text without spacing characters is uniform, and equal to no other spacing. -/
theorem eq_of_uniform_eq {a b : List Char} (plain : ∀ c ∈ a, isSpacing c = false)
    (same : uniform a = uniform b) : a = b := by
  induction a generalizing b with
  | nil =>
    cases b with
    | nil => rfl
    | cons => cases same
  | cons c a ih =>
    cases b with
    | nil => cases same
    | cons d b =>
      simp only [uniform_cons, List.cons.injEq] at same
      rcases same with ⟨head, tail⟩
      have first := plain c List.mem_cons_self
      rw [uniformChar_of_not_isSpacing first] at head
      rw [(uniformChar_eq_iff first).mp head.symm]
      rw [ih (fun other later => plain other (List.mem_cons_of_mem c later)) tail]

/-- A uniform text is taken apart where the text is. -/
theorem cut?_uniform (n : Nat) (text : List Char) :
    cut? n (uniform text) =
      (cut? n text).map fun (before, after) => (uniform before, uniform after) := by
  induction text generalizing n with
  | nil => cases n <;> rfl
  | cons c rest ih =>
    cases n with
    | zero => rfl
    | succ n =>
      simp only [uniform_cons, cut?, utf8Size_uniformChar]
      split
      · rw [ih]
        cases cut? (n + 1 - c.utf8Size) rest <;> rfl
      · rfl

/-! ## Texts that differ in their spacing -/

/-- The character that begins at a byte offset of a text. -/
def charAt? (text : List Char) (offset : Nat) : Option Char :=
  (cut? offset text).bind fun (_, after) => after.head?

/-- Two texts of one length that differ only at offsets where both have a spacing
character. -/
structure SpacedAlike (text other : List Char) : Prop where
  byteLength_eq : byteLength text = byteLength other
  spacing : ∀ offset, charAt? text offset ≠ charAt? other offset →
    ∃ c d, charAt? text offset = some c ∧ charAt? other offset = some d ∧
      isSpacing c = true ∧ isSpacing d = true

/-- Beyond a character, offsets are counted from behind it. -/
theorem charAt?_cons_add (c : Char) (rest : List Char) (offset : Nat) :
    charAt? (c :: rest) (c.utf8Size + offset) = charAt? rest offset := by
  have positive := c.utf8Size_pos
  obtain ⟨n, successor⟩ : ∃ n, c.utf8Size + offset = n + 1 := ⟨c.utf8Size + offset - 1, by omega⟩
  have behind : n + 1 - c.utf8Size = offset := by omega
  have fits : c.utf8Size ≤ n + 1 := by omega
  rw [charAt?, charAt?, successor, cut?, if_pos fits, behind]
  cases cut? offset rest <;> rfl

theorem charAt?_append (before after : List Char) (offset : Nat) :
    charAt? (before ++ after) (byteLength before + offset) = charAt? after offset := by
  induction before with
  | nil => rw [List.nil_append, byteLength, Nat.zero_add]
  | cons c before ih => rw [List.cons_append, byteLength, Nat.add_assoc, charAt?_cons_add, ih]

/-- In front of its end a text does not depend on what follows. -/
theorem charAt?_append_of_lt {before : List Char} {offset : Nat} (after : List Char)
    (inside : offset < byteLength before) :
    charAt? (before ++ after) offset = charAt? before offset := by
  induction before generalizing offset with
  | nil => cases inside
  | cons c before ih =>
    rw [byteLength] at inside
    by_cases first : offset < c.utf8Size
    · -- The offset is that of the first character, or inside it.
      cases offset with
      | zero => rfl
      | succ n =>
        have tight : ¬ c.utf8Size ≤ n + 1 := by omega
        rw [charAt?, charAt?, List.cons_append, cut?, cut?, if_neg tight, if_neg tight]
    · obtain ⟨n, rfl⟩ := Nat.exists_eq_add_of_le (show c.utf8Size ≤ offset by omega)
      rw [List.cons_append, charAt?_cons_add, charAt?_cons_add, ih (by omega)]

/-- The characters of a span are those of what stands there. -/
theorem Holds.charAt? {text part : List Char} {span : Span} (holds : Holds text span part)
    {offset : Nat} (inside : offset < byteLength part) :
    Text.charAt? text (span.start + offset) = Text.charAt? part offset := by
  rcases holds with ⟨before, after, rfl, start, -⟩
  rw [← start, charAt?_append, charAt?_append_of_lt after inside]

/-- Texts that are spaced alike have the same uniform text. -/
theorem SpacedAlike.uniform_eq {text other : List Char} (alike : SpacedAlike text other) :
    uniform text = uniform other := by
  rcases alike with ⟨length, spacing⟩
  induction text generalizing other with
  | nil =>
    rw [byteLength_eq_zero.mp length.symm]
  | cons c rest ih =>
    cases other with
    | nil =>
      cases byteLength_eq_zero.mp length
    | cons d behind =>
      have heads : uniformChar c = uniformChar d := by
        apply uniformChar_inj_iff.mpr
        by_cases same : c = d
        · exact .inl same
        · have different : charAt? (c :: rest) 0 ≠ charAt? (d :: behind) 0 := by
            intro equal
            exact same (Option.some.inj equal)
          obtain ⟨_, _, here, there, first, second⟩ := spacing 0 different
          cases here
          cases there
          exact .inr ⟨first, second⟩
      have sizes : c.utf8Size = d.utf8Size := by
        rw [← utf8Size_uniformChar c, heads, utf8Size_uniformChar]
      rw [byteLength, byteLength, sizes] at length
      rw [uniform_cons, uniform_cons, heads, ih (Nat.add_left_cancel length)]
      intro offset different
      have later := spacing (c.utf8Size + offset)
      rw [charAt?_cons_add, sizes, charAt?_cons_add] at later
      exact later different

/-- A character of the uniform text is the uniform character. -/
theorem charAt?_uniform (text : List Char) (offset : Nat) :
    charAt? (uniform text) offset = (charAt? text offset).map uniformChar := by
  rw [charAt?, charAt?, cut?_uniform]
  cases cut? offset text with
  | none => rfl
  | some parts =>
    rcases parts with ⟨before, after⟩
    cases after <;> rfl

/-- Texts differ in their spacing only exactly if they are equal as uniform texts. -/
theorem spacedAlike_iff {text other : List Char} :
    SpacedAlike text other ↔ uniform text = uniform other := by
  constructor
  · exact SpacedAlike.uniform_eq
  · intro same
    refine ⟨by rw [← byteLength_uniform, same, byteLength_uniform], ?_⟩
    intro offset different
    have alike := congrArg (charAt? · offset) same
    simp only [charAt?_uniform] at alike
    cases here : charAt? text offset with
    | none =>
      rw [here, Option.map_none, eq_comm, Option.map_eq_none_iff] at alike
      exact absurd (here.trans alike.symm) different
    | some c =>
      rw [here, Option.map_some, eq_comm, Option.map_eq_some_iff] at alike
      obtain ⟨d, there, equal⟩ := alike
      rcases uniformChar_inj_iff.mp equal with rfl | ⟨second, first⟩
      · exact absurd (here.trans there.symm) different
      · exact ⟨c, d, rfl, there, first, second⟩

/-- Texts of one length without an offset at which they differ are equal. -/
theorem eq_of_charAt?_eq {a b : List Char} (length : byteLength a = byteLength b)
    (same : ∀ offset < byteLength a, charAt? a offset = charAt? b offset) : a = b := by
  induction a generalizing b with
  | nil => exact (byteLength_eq_zero.mp length.symm).symm
  | cons c a ih =>
    cases b with
    | nil =>
      cases byteLength_eq_zero.mp length
    | cons d b =>
      have positive := c.utf8Size_pos
      have head := same 0 (by rw [byteLength]; omega)
      cases head
      rw [byteLength, byteLength] at length
      rw [ih (Nat.add_left_cancel length)]
      intro offset bound
      have later := same (c.utf8Size + offset) (by rw [byteLength]; omega)
      rwa [charAt?_cons_add, charAt?_cons_add] at later

/-- What stands in a span of a text stands in the uniform text as well. -/
theorem Holds.uniform {text part : List Char} {span : Span} (holds : Holds text span part) :
    Holds (Text.uniform text) span (Text.uniform part) := by
  rcases holds with ⟨before, after, rfl, start, stop⟩
  refine ⟨Text.uniform before, Text.uniform after, ?_, ?_, ?_⟩
  · rw [uniform_append, uniform_append]
  · rw [byteLength_uniform, start]
  · rw [byteLength_uniform, stop]

end Text

/-! ## Lines -/

/-- The line of the uniform text. -/
def Line.uniform (line : Line) : Line := { line with chars := Text.uniform line.chars }

theorem Line.column_uniform (line : Line) (offset : Nat) :
    line.uniform.column offset = line.column offset := by
  unfold Line.column
  rw [show line.uniform.chars = Text.uniform line.chars from rfl,
    show line.uniform.start = line.start from rfl, Text.cut?_uniform]
  cases Text.cut? (offset - line.start) line.chars with
  | none => rfl
  | some parts => exact Text.length_uniform parts.1

namespace LineIndex

/-- The lines of the uniform text. -/
def uniform (lines : LineIndex) : LineIndex :=
  { lines with first := lines.first.uniform, others := lines.others.map Line.uniform }

theorem linesFrom_uniform (start offset : Nat) (read text : List Char) :
    linesFrom start offset (Text.uniform read) (Text.uniform text) =
      ((linesFrom start offset read text).1.uniform,
        (linesFrom start offset read text).2.map Line.uniform) := by
  induction text generalizing start offset read with
  | nil =>
    simp only [Text.uniform_nil, linesFrom, Line.uniform, List.map_nil]
    rw [Text.uniform, Text.uniform, List.map_reverse]
  | cons c rest ih =>
    rw [Text.uniform_cons]
    by_cases feed : c = '\n'
    · have next := ih (offset + 1) (offset + 1) []
      rw [Text.uniform_nil] at next
      subst feed
      rw [Text.uniformChar_of_not_isSpacing (by decide), linesFrom, if_pos rfl, next, linesFrom,
        if_pos rfl]
      simp only [List.map_cons, Line.uniform, Text.uniform, List.map_reverse,
        Text.uniformChar_of_not_isSpacing (show Text.isSpacing '\n' = false by decide)]
    · have other : Text.uniformChar c ≠ '\n' := by
        rw [ne_eq, Text.uniformChar_eq_iff (by decide)]
        exact feed
      rw [linesFrom, if_neg other, linesFrom, if_neg feed, Text.utf8Size_uniformChar,
        ← Text.uniform_cons, ih]

/-- Texts that are equal as uniform texts have equal lines as uniform texts. -/
theorem uniform_ofText_eq {text other : String}
    (same : Text.uniform text.toList = Text.uniform other.toList) :
    (ofText text).uniform = (ofText other).uniform := by
  have lines := linesFrom_uniform 0 0 [] text.toList
  rw [same, linesFrom_uniform, Prod.mk.injEq] at lines
  rcases lines with ⟨first, others⟩
  have sizes : Text.byteLength text.toList = Text.byteLength other.toList := by
    rw [← Text.byteLength_uniform, same, Text.byteLength_uniform]
  simp only [ofText, uniform, first, others, sizes]

theorem lineAt_uniform (offset n : Nat) (line : Line) (others : List Line) :
    lineAt offset n line.uniform (others.map Line.uniform) =
      ((lineAt offset n line others).1, (lineAt offset n line others).2.uniform) := by
  induction others generalizing n line with
  | nil => rfl
  | cons next others ih =>
    rw [List.map_cons, lineAt, lineAt]
    change (if next.start ≤ offset then _ else _) = _
    split
    · exact ih (n + 1) next
    · rfl

/-- No location of a document depends on its spacing. -/
@[simp] theorem locate_uniform (lines : LineIndex) (span : Span) :
    lines.uniform.locate span = lines.locate span := by
  have places : ∀ offset, lines.uniform.lineCol offset = lines.lineCol offset := by
    intro offset
    simp only [lineCol, uniform, lineAt_uniform, Line.column_uniform]
  rw [locate, locate, places, places]

end LineIndex

end ServiceIdl
