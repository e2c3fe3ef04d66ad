import ServiceIdl.Proofs.Render.Yaml.Kind

/-!
# Data are told apart

Each element of a list begins with a dash and each field of a record with a letter, and none of
their further lines does. So the lines of a block fall apart into those of its parts
(`writeItems_cons_inj`, `writeFields_cons_inj`), and since the first line tells what kind of
datum it is, comparable data with the same lines are the same (`eq_of_write_eq`). All lines are
whole, so the same holds of the text (`eq_of_text_eq`).
-/

namespace ServiceIdl.Yaml

open Datum (Comparable ComparableItems ComparableFields isWord)

/-! ## Where parts begin -/

/-- The line begins an element of a list. -/
def beginsItem (row : Row) : Bool := row.chars.head? = some '-'

/-- The line begins a field of a record. -/
def beginsField (row : Row) : Bool := row.chars.head?.any Char.isAlpha

/-- An indented line begins no element, so elements are told apart by their lines. -/
theorem beginsItem_indent (row : Row) : beginsItem row.indent = false := by
  rcases row.head?_indent with empty | space
  · simp [beginsItem, empty]
  · simp [beginsItem, space]

theorem beginsField_indent (row : Row) : beginsField row.indent = false := by
  rcases row.head?_indent with empty | space
  · simp [beginsField, empty]
  · simp [beginsField, space]

theorem fieldRows_ne_nil {name : String} {value : Datum} {below : List Row} (filled : below ≠ []) :
    fieldRows name value below ≠ [] := by
  obtain ⟨first, others, rfl⟩ := List.exists_cons_of_ne_nil filled
  unfold fieldRows
  simp only
  split <;> exact List.cons_ne_nil _ _

theorem write_ne_nil : ∀ d : Datum, write d ≠ []
  | .null | .bool true | .bool false | .int _ | .list [] | .record [] => List.cons_ne_nil _ _
  | .text s => textRows_ne_nil s.toList
  | .list (item :: _) => by
    obtain ⟨first, others, written⟩ := List.exists_cons_of_ne_nil (write_ne_nil item)
    simp [write, written, hang]
  | .record ((name, value) :: _) => by
    rw [write]
    exact List.append_ne_nil_of_left_ne_nil (fieldRows_ne_nil (write_ne_nil value)) _

theorem write_list (item : Datum) (items : List Datum) :
    write (.list (item :: items)) = writeItems (item :: items) := by
  rw [write, writeItems]

theorem write_record (field : String × Datum) (fields : List (String × Datum)) :
    write (.record (field :: fields)) = writeFields (field :: fields) := by
  rw [write, writeFields]

theorem writeItems_ne_nil (item : Datum) (items : List Datum) :
    writeItems (item :: items) ≠ [] := by
  rw [← write_list]
  exact write_ne_nil _

theorem writeFields_ne_nil (field : String × Datum) (fields : List (String × Datum)) :
    writeFields (field :: fields) ≠ [] := by
  rw [← write_record]
  exact write_ne_nil _

/-- The lines of an element: the first one has the dash, and no other begins an element or a
field. -/
theorem exists_hang_item (item : Datum) :
    ∃ first others, hang ['-', ' '] (write item) = first :: others ∧
      (∃ chars, first.chars = '-' :: ' ' :: chars) ∧
      (∀ row ∈ others, beginsItem row = false) ∧ ∀ row ∈ others, beginsField row = false := by
  obtain ⟨first, others, written⟩ := List.exists_cons_of_ne_nil (write_ne_nil item)
  rw [written]
  refine ⟨_, _, rfl, ⟨first.chars, rfl⟩, ?_, ?_⟩
  · exact List.forall_mem_map.mpr fun row _ => beginsItem_indent row
  · exact List.forall_mem_map.mpr fun row _ => beginsField_indent row

/-- No line of a list begins a field. -/
theorem beginsField_writeItems (items : List Datum) :
    ∀ row ∈ writeItems items, beginsField row = false := by
  induction items with
  | nil => exact List.forall_mem_nil _
  | cons item items ih =>
    obtain ⟨first, others, written, ⟨chars, begun⟩, -, inner⟩ := exists_hang_item item
    rw [writeItems, written]
    refine List.forall_mem_append.mpr ⟨List.forall_mem_cons.mpr ⟨?_, inner⟩, ih⟩
    simp [beginsField, begun]

theorem beginsItem_head?_writeItems (items : List Datum) :
    ∀ row ∈ (writeItems items).head?, beginsItem row = true := by
  cases items with
  | nil => simp [writeItems]
  | cons item items =>
    obtain ⟨first, others, written, ⟨chars, begun⟩, -⟩ := exists_hang_item item
    simp [writeItems, written, beginsItem, begun]

/-- The lines of a field: the first one has the name and a colon, and no other begins a field. -/
theorem exists_fieldRows (name : String) (value : Datum) :
    ∃ first others tail, fieldRows name value (write value) = first :: others ∧
      first.chars = name.toList ++ ':' :: tail ∧ endsWord tail = true ∧
      ∀ row ∈ others, beginsField row = false := by
  have hanging : ∃ first others tail, hang (name.toList ++ [':'] ++ [' ']) (write value) =
      first :: others ∧ first.chars = name.toList ++ ':' :: tail ∧ endsWord tail = true ∧
      ∀ row ∈ others, beginsField row = false := by
    obtain ⟨first, others, written⟩ := List.exists_cons_of_ne_nil (write_ne_nil value)
    rw [written]
    refine ⟨_, _, ' ' :: first.chars, rfl, by simp [Row.behind], rfl, ?_⟩
    exact List.forall_mem_map.mpr fun row _ => beginsField_indent row
  unfold fieldRows
  simp only
  split
  · refine ⟨_, _, [], rfl, rfl, rfl, ?_⟩
    rw [write_list]
    exact beginsField_writeItems _
  · exact ⟨_, _, [], rfl, rfl, rfl, List.forall_mem_map.mpr fun row _ => beginsField_indent row⟩
  · exact hanging

/-- Behind a name of letters the line begins a field. -/
theorem beginsField_of_isWord {name : String} (word : isWord name = true) {row : Row}
    {tail : List Char} (begun : row.chars = name.toList ++ tail) : beginsField row = true := by
  obtain ⟨c, rest, form, letters⟩ := exists_cons_of_isWord word
  rw [form] at begun
  simp [beginsField, begun, letters c List.mem_cons_self]

/-! ## Fields of one name -/

/-- Below its name, a list begins with a dash and a record with a space. -/
theorem writeItems_ne_map_indent (item : Datum) (items : List Datum) (below : List Row) :
    writeItems (item :: items) ≠ below.map Row.indent := by
  intro same
  obtain ⟨first, others, written, ⟨chars, begun⟩, -⟩ := exists_hang_item item
  rw [writeItems, written] at same
  cases below with
  | nil => cases same
  | cons row below =>
    have dash := beginsItem_indent row
    rw [← (List.cons.inj same).1] at dash
    simp [beginsItem, begun] at dash

/-- A name alone on its line differs from a name with a value behind it. -/
theorem line_cons_ne_hang (label : List Char) (below rows : List Row) :
    .line label :: below ≠ hang (label ++ [' ']) rows := by
  intro same
  cases rows with
  | nil => cases same
  | cons first others =>
    have chars := congrArg Row.chars (List.cons.inj same).1
    simp [Row.line, Row.behind] at chars

/-- The lines of a field determine those of its value. -/
theorem write_eq_of_fieldRows_eq {name : String} {value other : Datum}
    (same : fieldRows name value (write value) = fieldRows name other (write other)) :
    write value = write other := by
  unfold fieldRows at same
  simp only at same
  -- A value is a list, a record or stands behind its name, and no two of these begin alike.
  split at same <;> split at same
  · exact (List.cons.inj same).2
  · rw [write_list] at same
    exact absurd (List.cons.inj same).2 (writeItems_ne_map_indent _ _ _)
  · exact absurd same (line_cons_ne_hang _ _ _)
  · rw [write_list] at same
    exact absurd (List.cons.inj same).2.symm (writeItems_ne_map_indent _ _ _)
  · exact (List.map_inj_right fun _ _ same => Row.indent_injective same).mp (List.cons.inj same).2
  · exact absurd same (line_cons_ne_hang _ _ _)
  · exact absurd same.symm (line_cons_ne_hang _ _ _)
  · exact absurd same.symm (line_cons_ne_hang _ _ _)
  · exact hang_injective _ same

/-! ## Parts of blocks -/

/-- The lines of elements fall apart into those of the first and those of the others. -/
theorem writeItems_cons_inj {item other : Datum} {items others : List Datum}
    (same : writeItems (item :: items) = writeItems (other :: others)) :
    write item = write other ∧ writeItems items = writeItems others := by
  obtain ⟨first, inside, written, -, inner, -⟩ := exists_hang_item item
  obtain ⟨first', inside', written', -, inner', -⟩ := exists_hang_item other
  rw [writeItems, writeItems, written, written'] at same
  obtain ⟨begun, same⟩ := List.cons.inj same
  obtain ⟨within, behind⟩ := append_inj_of_runs inner inner' (beginsItem_head?_writeItems items)
    (beginsItem_head?_writeItems others) same
  refine ⟨hang_injective ['-', ' '] ?_, behind⟩
  rw [written, written', begun, within]

/-- The lines of fields fall apart into those of the first and those of the others. -/
theorem writeFields_cons_inj {name : String} {value other : Datum}
    {fields others : List (String × Datum)}
    (next : ∀ row ∈ (writeFields fields).head?, beginsField row = true)
    (next' : ∀ row ∈ (writeFields others).head?, beginsField row = true)
    (same : writeFields ((name, value) :: fields) = writeFields ((name, other) :: others)) :
    write value = write other ∧ writeFields fields = writeFields others := by
  obtain ⟨first, inside, _, written, -, -, inner⟩ := exists_fieldRows name value
  obtain ⟨first', inside', _, written', -, -, inner'⟩ := exists_fieldRows name other
  rw [writeFields, writeFields, written, written'] at same
  obtain ⟨begun, same⟩ := List.cons.inj same
  obtain ⟨within, behind⟩ := append_inj_of_runs inner inner' next next' same
  have field : fieldRows name value (write value) = fieldRows name other (write other) := by
    rw [written, written', begun, within]
  exact ⟨write_eq_of_fieldRows_eq field, behind⟩

/-! ## Kinds of data -/

/-- The first line of a datum tells what it is, but a large integer could also be a text. -/
theorem kindOf_write {d : Datum} (words : d.Comparable d) :
    ∃ first others, write d = first :: others ∧ (kindOf first.chars = .ofDatum d ∨
      ∃ n, d = .int n ∧ ¬ Decimal.IsSigned64 n ∧ kindOf first.chars = .text) := by
  cases d with
  | null => exact ⟨_, _, rfl, .inl (by decide +kernel)⟩
  | bool b => cases b <;> exact ⟨_, _, rfl, .inl (by decide +kernel)⟩
  | int n =>
    refine ⟨_, _, rfl, ?_⟩
    by_cases fits : Decimal.IsSigned64 n
    · exact .inl (kindOf_integer_of_isSigned64 fits)
    · rcases kindOf_integer_cases n with int | text
      · exact .inl int
      · exact .inr ⟨n, rfl, fits, text⟩
  | text s =>
    obtain ⟨first, others, written, kind⟩ := kindOf_textRows s.toList
    exact ⟨first, others, written, .inl kind⟩
  | list items =>
    cases items with
    | nil => exact ⟨_, _, rfl, .inl (by decide)⟩
    | cons item items =>
      obtain ⟨first, others, written, ⟨chars, begun⟩, -⟩ := exists_hang_item item
      rw [write_list, writeItems, written]
      refine ⟨first, _, rfl, .inl ?_⟩
      rw [begun]
      rfl
  | record fields =>
    cases fields with
    | nil => exact ⟨_, _, rfl, .inl (by decide)⟩
    | cons field fields =>
      obtain ⟨name, value⟩ := field
      obtain ⟨first, others, tail, written, begun, ends, -⟩ := exists_fieldRows name value
      rw [write_record, writeFields, written]
      refine ⟨first, _, rfl, .inl ?_⟩
      rw [begun]
      simp only [Comparable, ComparableFields] at words
      exact kindOf_append_colon words.1.1 ends

/-- Data with the same lines are of the same kind. -/
theorem kind_eq_of_write_eq {d e : Datum} (words : d.Comparable d) (words' : e.Comparable e)
    (comparable : d.Comparable e) (same : write d = write e) : Kind.ofDatum d = .ofDatum e := by
  obtain ⟨first, others, written, kind⟩ := kindOf_write words
  obtain ⟨first', others', written', kind'⟩ := kindOf_write words'
  obtain ⟨rfl, -⟩ := List.cons.inj (written.symm.trans (same.trans written'))
  rcases kind with kind | ⟨n, rfl, large, text⟩ <;>
    rcases kind' with kind' | ⟨m, rfl, large', text'⟩
  · exact kind.symm.trans kind'
  · have isText := kind.symm.trans text'
    cases d with
    | text => exact absurd comparable large'
    | _ => cases isText
  · have isText := kind'.symm.trans text
    cases e with
    | text => exact absurd comparable large
    | _ => cases isText
  · rfl

/-! ## Data -/

theorem beginsField_head?_writeFields {fields : List (String × Datum)}
    (words : ComparableFields fields fields) :
    ∀ row ∈ (writeFields fields).head?, beginsField row = true := by
  cases fields with
  | nil => simp [writeFields]
  | cons field fields =>
    obtain ⟨name, value⟩ := field
    obtain ⟨⟨word, -⟩, -⟩ := words
    obtain ⟨first, others, tail, written, begun, -⟩ := exists_fieldRows name value
    simp [writeFields, written, beginsField_of_isWord word begun]

/-- A list has the lines of its elements, and only a list without elements has another line. -/
theorem writeItems_eq_of_write_eq {items others : List Datum}
    (same : write (.list items) = write (.list others)) :
    writeItems items = writeItems others := by
  have differs (item : Datum) (items : List Datum) :
      write (.list []) ≠ writeItems (item :: items) := by
    intro same
    have begins := beginsItem_head?_writeItems (item :: items) (.line ['[', ']'])
    cases begins (by rw [← same]; rfl)
  cases items with
  | nil =>
    cases others with
    | nil => rfl
    | cons other others => exact absurd (same.trans (write_list other others)) (differs _ _)
  | cons item items =>
    cases others with
    | nil => exact absurd (same.symm.trans (write_list item items)) (differs _ _)
    | cons other others => rwa [write_list, write_list] at same

/-- Records with the same lines have the same lines of fields, an empty record included. -/
theorem writeFields_eq_of_write_eq {fields others : List (String × Datum)}
    (words : ComparableFields fields fields) (words' : ComparableFields others others)
    (same : write (.record fields) = write (.record others)) :
    writeFields fields = writeFields others := by
  have differs {field : String × Datum} {fields : List (String × Datum)}
      (words : ComparableFields (field :: fields) (field :: fields)) :
      write (.record []) ≠ writeFields (field :: fields) := by
    intro same
    have begins := beginsField_head?_writeFields words (.line ['\x7b', '\x7d'])
    cases begins (by rw [← same]; rfl)
  cases fields with
  | nil =>
    cases others with
    | nil => rfl
    | cons other others => exact absurd (same.trans (write_record other others)) (differs words')
  | cons field fields =>
    cases others with
    | nil => exact absurd (same.symm.trans (write_record field fields)) (differs words)
    | cons other others => rwa [write_record, write_record] at same

mutual

/-- Comparable data with the same lines are the same. -/
theorem eq_of_write_eq (d e : Datum) (words : d.Comparable d) (words' : e.Comparable e)
    (comparable : d.Comparable e) (same : write d = write e) : d = e := by
  -- Where the kinds differ, so do the first lines.
  have kinds := kind_eq_of_write_eq words words' comparable same
  cases d with
  | null => cases e <;> first | rfl | cases kinds
  | bool b =>
    cases e with
    | bool c => cases b <;> cases c <;> first | rfl | cases same
    | _ => cases kinds
  | int n =>
    cases e with
    | int m =>
      have digits : Decimal.write n = Decimal.write m :=
        congrArg Row.chars (List.cons.inj same).1
      rw [Decimal.write_injective digits]
    | _ => cases kinds
  | text s =>
    cases e with
    | text t => rw [String.toList_inj.mp (textRows_injective same)]
    | _ => cases kinds
  | list items =>
    cases e with
    | list others =>
      rw [eq_of_writeItems_eq items others words words' comparable
        (writeItems_eq_of_write_eq same)]
    | _ => cases kinds
  | record fields =>
    cases e with
    | record others =>
      rw [eq_of_writeFields_eq fields others words words' comparable
        (writeFields_eq_of_write_eq words words' same)]
    | _ => cases kinds

/-- Lists of the same lines are equal, with the elements compared one by one. -/
theorem eq_of_writeItems_eq : ∀ items others : List Datum, ComparableItems items items →
    ComparableItems others others → ComparableItems items others →
    writeItems items = writeItems others → items = others
  | [], [], _, _, _, _ => rfl
  | [], other :: others, _, _, _, same => absurd same.symm (writeItems_ne_nil other others)
  | item :: items, [], _, _, _, same => absurd same (writeItems_ne_nil item items)
  | item :: items, other :: others, words, words', comparable, same => by
    obtain ⟨first, behind⟩ := writeItems_cons_inj same
    rw [eq_of_write_eq item other words.1 words'.1 comparable.1 first,
      eq_of_writeItems_eq items others words.2 words'.2 comparable.2 behind]

/-- Records of the same lines are equal, with the fields compared one by one. -/
theorem eq_of_writeFields_eq : ∀ fields others : List (String × Datum),
    ComparableFields fields fields → ComparableFields others others →
    ComparableFields fields others → writeFields fields = writeFields others → fields = others
  | [], [], _, _, _, _ => rfl
  | [], other :: others, _, _, _, same => absurd same.symm (writeFields_ne_nil other others)
  | field :: fields, [], _, _, _, same => absurd same (writeFields_ne_nil field fields)
  | (name, value) :: fields, (name', value') :: others, words, words', comparable, same => by
    obtain ⟨⟨-, rfl⟩, inside, later⟩ := comparable
    obtain ⟨first, behind⟩ := writeFields_cons_inj (beginsField_head?_writeFields words.2.2)
      (beginsField_head?_writeFields words'.2.2) same
    rw [eq_of_write_eq value value' words.2.1 words'.2.1 inside first,
      eq_of_writeFields_eq fields others words.2.2 words'.2.2 later behind]

end

/-! ## Whole lines -/

/-- The lines of a field are whole when those of its value are. -/
theorem isWhole_of_mem_fieldRows {name : String} (word : isWord name = true) {value : Datum}
    {below : List Row} (whole : ∀ row ∈ below, row.IsWhole) :
    ∀ row ∈ fieldRows name value below, row.IsWhole := by
  obtain ⟨c, rest, form, letters⟩ := exists_cons_of_isWord word
  have label : ∀ c ∈ name.toList ++ [':'], isBreak c = false := by
    rw [form]
    refine List.forall_mem_append.mpr ⟨fun d inside => ?_, List.forall_mem_singleton.mpr rfl⟩
    exact isBreak_eq_false_of_isAlpha (letters d inside)
  unfold fieldRows
  simp only
  split
  · exact List.forall_mem_cons.mpr ⟨Row.isWhole_line label, whole⟩
  · refine List.forall_mem_cons.mpr ⟨Row.isWhole_line label, List.forall_mem_map.mpr ?_⟩
    exact fun row member => (whole row member).indent
  · refine isWhole_of_mem_hang (List.forall_mem_append.mpr ⟨label, ?_⟩) whole
    exact List.forall_mem_singleton.mpr rfl

mutual

/-- The lines of a datum are whole. -/
theorem isWhole_of_mem_write : ∀ d : Datum, d.Comparable d → ∀ row ∈ write d, row.IsWhole
  | .null, _ => List.forall_mem_singleton.mpr (Row.isWhole_line (by simp [isBreak]))
  | .bool true, _ => List.forall_mem_singleton.mpr (Row.isWhole_line (by simp [isBreak]))
  | .bool false, _ => List.forall_mem_singleton.mpr (Row.isWhole_line (by simp [isBreak]))
  | .int n, _ => by
    refine List.forall_mem_singleton.mpr (Row.isWhole_line fun c inside => ?_)
    rcases Decimal.isDigit_of_mem_write inside with rfl | digit
    · rfl
    · exact isBreak_eq_false_of_isDigit digit
  | .text s, _ => isWhole_of_mem_textRows s.toList
  | .list [], _ => List.forall_mem_singleton.mpr (Row.isWhole_line (by simp [isBreak]))
  | .list (item :: items), words => by
    rw [write_list]
    exact isWhole_of_mem_writeItems (item :: items) words
  | .record [], _ => List.forall_mem_singleton.mpr (Row.isWhole_line (by simp [isBreak]))
  | .record (field :: fields), words => by
    rw [write_record]
    exact isWhole_of_mem_writeFields (field :: fields) words

theorem isWhole_of_mem_writeItems : ∀ items : List Datum, ComparableItems items items →
    ∀ row ∈ writeItems items, row.IsWhole
  | [], _ => List.forall_mem_nil _
  | item :: items, words => by
    rw [writeItems]
    have first : ∀ row ∈ hang ['-', ' '] (write item), row.IsWhole :=
      isWhole_of_mem_hang (by simp [isBreak]) (isWhole_of_mem_write item words.1)
    exact List.forall_mem_append.mpr ⟨first, isWhole_of_mem_writeItems items words.2⟩

theorem isWhole_of_mem_writeFields : ∀ fields : List (String × Datum),
    ComparableFields fields fields → ∀ row ∈ writeFields fields, row.IsWhole
  | [], _ => List.forall_mem_nil _
  | (name, value) :: fields, words => by
    rw [writeFields]
    have first : ∀ row ∈ fieldRows name value (write value), row.IsWhole :=
      isWhole_of_mem_fieldRows words.1.1 (isWhole_of_mem_write value words.2.1)
    exact List.forall_mem_append.mpr ⟨first, isWhole_of_mem_writeFields fields words.2.2⟩

end

/-- Comparable data with the same text are the same. -/
theorem eq_of_text_eq {d e : Datum} (words : d.Comparable d) (words' : e.Comparable e)
    (comparable : d.Comparable e) (same : text d = text e) : d = e := by
  have lines := String.ofList_injective same
  exact eq_of_write_eq d e words words' comparable
    (Row.eq_of_flatMap_toList_eq (isWhole_of_mem_write d words) (isWhole_of_mem_write e words')
      lines)

end ServiceIdl.Yaml
