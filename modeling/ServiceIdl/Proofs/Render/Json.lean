import ServiceIdl.Proofs.Grammar.Written
import ServiceIdl.Proofs.Render.Value
import ServiceIdl.Proofs.Syntax.Denotes

/-!
# JSON is read back

The JSON of a datum is a node value of the document grammar, in either layout, and it
means the datum again (`Json.denotes_write`). The one thing that could be lost are
integers beyond 64 bits, which are read as floating point numbers, so the integers of
the datum have to fit (`Datum.Fits`).

Between the elements of a list or a record stand a comma and perhaps a line break, which
are all blanks of the grammar; so what matters is only with which character an element
begins and ends.
-/

namespace ServiceIdl

open Peg (Expr Derives Fails)
open Text (byteLength)

/-! ## Readers along the way -/

namespace Value

/-- The value of the one child of a node value. -/
def ofContent (content : NodeValueKind) : Except Defect Value :=
  match NodeValueKind.form content with
  | .array elements => (NodeArray.values elements).mapM ofNode >>= fun l => .ok (.array l)
  | .object record => (NodeObject.entries record).mapM entryOfNode >>= fun l => .ok (.object l)
  | .number literal => (Numeric.ofNode literal).map .number
  | .keyword word => ofKeyword word
  | .string text => ofString text

theorem ofNode_eq_bind (node : NodeValue) :
    ofNode node = NodeValue.content node >>= ofContent := by
  rw [ofNode_eq]
  cases NodeValue.content node <;> rfl

/-- The value of the one child of a string. -/
def ofStringContent (content : StringValueKind) : Except Defect Value := do
  match StringValueKind.form content with
  | .block block => return .string (← TextBlock.value block)
  | .quoted quoted => return .string (← QuotedText.value quoted)
  | .shapeId id => return .shapeId id.text

variable {v : NodeValueKind}

theorem ofContent_of_array (kind : v.tree.kind = .nodeArray) :
    ofContent v = (v.many .nodeValue).mapM ofNode >>= fun l => .ok (.array l) := by
  have form : NodeValueKind.form v = .array ⟨v.tree, by simp [kind, Category.kinds]⟩ :=
    dif_pos kind
  rw [ofContent, form]
  rfl

theorem ofContent_of_object (kind : v.tree.kind = .nodeObject) :
    ofContent v = (v.many .nodeObjectKvp).mapM entryOfNode >>= fun l => .ok (.object l) := by
  have form : NodeValueKind.form v = .object ⟨v.tree, by simp [kind, Category.kinds]⟩ := by
    simp [NodeValueKind.form, kind]
  rw [ofContent, form]
  rfl

theorem ofContent_of_string (kind : v.tree.kind = .nodeStringValue) :
    ofContent v = v.required .stringValueKind >>= ofStringContent := by
  have form : NodeValueKind.form v = .string ⟨v.tree, by simp [kind, Category.kinds]⟩ := by
    simp [NodeValueKind.form, kind]
  rw [ofContent, form]
  rfl

/-- An integer that was written with 64 signed bits is read as that integer and not as a float. -/
theorem ofContent_of_number {n : Int} (kind : v.tree.kind = .number) (fits : Decimal.IsSigned64 n)
    (written : v.text.toList = Decimal.write n) : ofContent v = .ok (.number (.integer n)) := by
  have form : NodeValueKind.form v = .number ⟨v.tree, by simp [kind, Category.kinds]⟩ := by
    simp [NodeValueKind.form, kind]
  have known : Numeric.ofText? v.tree.text = some (.integer n) :=
    Numeric.ofText?_write fits written
  rw [ofContent, form]
  simp only [Numeric.ofNode, View.text, known]
  rfl

theorem ofContent_of_keyword (kind : v.tree.kind = .nodeKeyword) :
    ofContent v = ofKeyword ⟨v.tree, by simp [kind, Category.kinds]⟩ := by
  have form : NodeValueKind.form v = .keyword ⟨v.tree, by simp [kind, Category.kinds]⟩ := by
    simp [NodeValueKind.form, kind]
  rw [ofContent, form]

/-- The keywords with their values. -/
def keywords : List (String × Value) :=
  [("true", .bool true), ("false", .bool false), ("null", .null)]

theorem ofKeyword_eq_ok {keyword : NodeKeyword} {value : Value}
    (listed : (keyword.text, value) ∈ keywords) : ofKeyword keyword = .ok value := by
  unfold ofKeyword
  simp only [keywords, List.mem_cons, Prod.mk.injEq, List.not_mem_nil, or_false] at listed
  rcases listed with ⟨word, rfl⟩ | ⟨word, rfl⟩ | ⟨word, rfl⟩
  · rw [word]
    rfl
  · rw [word]
    rfl
  · rw [word]
    rfl

end Value

/-- A quoted text is read as what was put between its quotes. -/
theorem QuotedText.value_of_quote {quoted : QuotedText} {s : String}
    (written : quoted.text.toList = Json.quote s) : QuotedText.value quoted = .ok s := by
  have inner : between? ['"'] (Json.quote s) = some (s.toList.flatMap Json.escape) :=
    between?_eq_some_iff.mpr rfl
  rw [QuotedText.value, QuotedText.raw, written, inner]
  simp only [bind, Except.bind, String.toList_ofList, Text.unescape_flatMap_escape,
    String.ofList_toList]
  rfl

namespace Json

variable {c : Category} {β : Type} {offset : Nat} {rest : List Char}

/-! ## Words -/

theorem denotes_key (name : String) :
    Denotes (.rule .nodeObjectKey) NodeObjectKey.name offset (quote name) rest [name] := by
  have quoted : Denotes (.rule .quotedText) QuotedText.value offset (quote name) rest [name] :=
    .word rfl (by decide) (by decide) (Rule.derives_quotedText name)
      fun v _ written => QuotedText.value_of_quote written
  refine .node (by decide) (.left quoted) ?_
  intro v _ known
  obtain ⟨child, found, read⟩ := View.exists_optional_of_mapM known
  rw [NodeObjectKey.name, found]
  exact read

theorem denotes_string (s : String) (closes : Closes rest) :
    Denotes (.rule .nodeStringValue) Value.ofContent offset (quote s) rest [.string s] := by
  have quoted : Denotes (.rule .quotedText) Value.ofStringContent offset (quote s) rest
      [.string s] := by
    refine .word rfl (by decide) (by decide) (Rule.derives_quotedText s) ?_
    intro v kind written
    have form : StringValueKind.form v = .quoted ⟨v.tree, by simp [kind, Category.kinds,
        Kind.ofRule]⟩ := by
      simp [StringValueKind.form, kind, Kind.ofRule]
    have known : QuotedText.value ⟨v.tree, by simp [kind, Category.kinds, Kind.ofRule]⟩ = .ok s :=
      QuotedText.value_of_quote written
    rw [Value.ofStringContent, form]
    simp only [known]
    rfl
  have noBlock : Peg.Fails documentGrammar .loose (.rule .textBlock) offset (quote s ++ rest) :=
    Rule.fails_textBlock s closes
  refine .node (by decide) (.right noBlock (.left quoted)) ?_
  intro v kind known
  rw [Value.ofContent_of_string kind]
  exact View.required_bind_of_mapM known

theorem denotes_number {n : Int} (fits : Decimal.IsSigned64 n) (closes : Closes rest) :
    Denotes (.rule .number) Value.ofContent offset (Decimal.write n) rest
      [.number (.integer n)] :=
  .word rfl (by decide) (by decide) (Rule.derives_number n closes)
    fun _ kind written => Value.ofContent_of_number kind fits written

/-- A word of the grammar is a keyword, if no word goes on behind it. -/
theorem denotes_keyword {word : String} {value : Value} (listed : (word, value) ∈ Value.keywords)
    (closes : Closes rest) :
    Denotes (.rule .nodeKeyword) Value.ofContent offset word.toList rest [value] := by
  have known : word ∈ Value.keywords.map Prod.fst := List.mem_map_of_mem listed
  refine .word rfl (by decide) (by decide) (Rule.derives_nodeKeyword known closes) ?_
  intro v kind written
  have same : v.tree.text = word := String.toList_inj.mp written
  rw [Value.ofContent_of_keyword kind]
  refine Value.ofKeyword_eq_ok ?_
  change (v.tree.text, value) ∈ Value.keywords
  rw [same]
  exact listed

/-! ## Lists and records -/

/-- Parts of a list or a record behind the first. -/
def separate (layout : Layout) (depth : Nat) (parts : List (List Char)) : List Char :=
  parts.flatMap fun part => ',' :: layout.lineBreak depth ++ part

/-- Parts of a list or a record between brackets, on one line or on lines of their own. -/
def wrap (layout : Layout) (depth : Nat) (opening closing : Char) :
    List (List Char) → List Char
  | [] => [opening, closing]
  | part :: parts =>
    opening :: layout.lineBreak (depth + 1) ++ part ++ separate layout (depth + 1) parts
      ++ layout.lineBreak depth ++ [closing]

/-- Elements are separated in one way, whatever they are. -/
theorem writeItems_eq_separate (layout : Layout) (depth : Nat) (items : List Datum) :
    writeItems layout depth items = separate layout depth (items.map (write layout depth)) := by
  induction items with
  | nil => rw [writeItems, List.map_nil, separate, List.flatMap_nil]
  | cons item items ih => rw [writeItems, ih, List.map_cons, separate, separate, List.flatMap_cons]

/-- A field of a record. -/
def writeField (layout : Layout) (depth : Nat) (field : String × Datum) : List Char :=
  quote field.1 ++ (layout.colon ++ write layout depth field.2)

theorem writeFields_eq_separate (layout : Layout) (depth : Nat) (fields : List (String × Datum)) :
    writeFields layout depth fields =
      separate layout depth (fields.map (writeField layout depth)) := by
  induction fields with
  | nil => rw [writeFields, List.map_nil, separate, List.flatMap_nil]
  | cons field fields ih =>
    rcases field with ⟨name, field⟩
    rw [writeFields, ih, List.map_cons, separate, separate, List.flatMap_cons, writeField]
    simp only [List.cons_append, List.append_assoc]

theorem write_list (layout : Layout) (depth : Nat) (items : List Datum) :
    write layout depth (.list items) =
      wrap layout depth '[' ']' (items.map (write layout (depth + 1))) := by
  cases items with
  | nil => rw [write, List.map_nil, wrap]
  | cons item items => rw [write, writeItems_eq_separate, List.map_cons, wrap]

theorem write_record (layout : Layout) (depth : Nat) (fields : List (String × Datum)) :
    write layout depth (.record fields) =
      wrap layout depth '\x7b' '\x7d' (fields.map (writeField layout (depth + 1))) := by
  cases fields with
  | nil => rw [write, List.map_nil, wrap]
  | cons field fields =>
    rcases field with ⟨name, field⟩
    rw [write, writeFields_eq_separate, List.map_cons, wrap, writeField]
    simp only [List.cons_append, List.append_assoc]

/-- All that stands between elements are blanks of the grammar. -/
theorem blank_of_mem_lineBreak {layout : Layout} {depth : Nat} {c : Char}
    (member : c ∈ layout.lineBreak depth) : c = ' ' ∨ c = '\n' ∨ c = ',' := by
  cases layout with
  | compact => cases member
  | indented =>
    rcases List.mem_cons.mp member with feed | space
    · exact .inr (.inl feed)
    · exact .inl (List.eq_of_mem_replicate space)

theorem skips_lineBreak {layout : Layout} {depth : Nat} (solid : Solid rest.head?) :
    Skips offset (layout.lineBreak depth) rest :=
  .blanks (fun _ => blank_of_mem_lineBreak) solid

/-- The grammar reads commas as trivia, so a separator is skipped as a whole. -/
theorem skips_separator {layout : Layout} {depth : Nat} (solid : Solid rest.head?) :
    Skips offset (',' :: layout.lineBreak depth) rest := by
  refine .blanks ?_ solid
  intro c member
  rcases List.mem_cons.mp member with comma | blank
  · exact .inr (.inr comma)
  · exact blank_of_mem_lineBreak blank

/-- A bracket that closes a list or a record, perhaps on a line of its own. -/
theorem closes_lineBreak (layout : Layout) (depth : Nat) {closing : Char}
    (closes : some closing ∈ closers) : Closes (layout.lineBreak depth ++ ([closing] ++ rest)) := by
  cases layout with
  | compact => exact closes
  | indented =>
    have feed : some '\n' ∈ closers := by decide
    exact feed

section Wrapped

/-! The elements are parts, each with its result; the first character of a part is no
blank, and behind a part follows what closes a value. -/

variable {closing : Char} {name : Rule} {read : View c → Except Defect β}
  {elements : List (List Char × β)}

/-- Elements between a line break and another are read in turn, by induction on the list. -/
theorem denotes_separate (layout : Layout) (depth : Nat)
    (each : ∀ element ∈ elements, ∀ offset rest, Closes rest →
      Denotes (.rule name) read offset element.1 rest [element.2])
    (begins : ∀ element ∈ elements, ∃ head more, element.1 = head :: more ∧ Solid (some head))
    (closes : some closing ∈ closers) (solid : Solid (some closing))
    (refused : documentGrammar.refuses (some closing) 8 name = true) (offset : Nat)
    (rest : List Char) :
    Denotes (.star (.seq .loose .empty (.rule name))) read offset
        (separate layout (depth + 1) (elements.map Prod.fst))
        (layout.lineBreak depth ++ ([closing] ++ rest)) (elements.map Prod.snd) ∧
      Closes (separate layout (depth + 1) (elements.map Prod.fst) ++
        (layout.lineBreak depth ++ ([closing] ++ rest))) := by
  induction elements generalizing offset with
  | nil =>
    have ended : Skips offset (layout.lineBreak depth) ([closing] ++ rest) :=
      skips_lineBreak solid
    refine ⟨.stop (ended.fails ?_), closes_lineBreak layout depth closes⟩
    exact Peg.Grammar.fails_of_refuses refused rfl
  | cons element elements ih =>
    rcases element with ⟨part, result⟩
    let separator := ',' :: layout.lineBreak (depth + 1)
    obtain ⟨others, closed⟩ := ih (fun other later => each other (List.mem_cons_of_mem _ later))
      (fun other later => begins other (List.mem_cons_of_mem _ later))
      (offset + byteLength (separator ++ part))
    obtain ⟨head, more, same, solidHead⟩ := begins (part, result) List.mem_cons_self
    have first := each (part, result) List.mem_cons_self (offset + byteLength separator) _ closed
    have separated (behind : List Char) : Skips offset separator (part ++ behind) := by
      change part = head :: more at same
      rw [same]
      exact skips_separator solidHead
    have comma : some ',' ∈ closers := by decide
    exact ⟨.round (.behindTrivia (separated _) first) others, comma⟩

/-- What stands between brackets denotes the results of its parts. -/
theorem denotes_wrap {opening : Char} (layout : Layout) (depth : Nat)
    (each : ∀ element ∈ elements, ∀ offset rest, Closes rest →
      Denotes (.rule name) read offset element.1 rest [element.2])
    (begins : ∀ element ∈ elements, ∃ head more, element.1 = head :: more ∧ Solid (some head))
    (closes : some closing ∈ closers) (solid : Solid (some closing))
    (refused : documentGrammar.refuses (some closing) 8 name = true) :
    Denotes (Rule.inOrder [.literal [opening], Rule.many (.rule name), .literal [closing]]) read
      offset (wrap layout depth opening closing (elements.map Prod.fst)) rest
      (elements.map Prod.snd) := by
  cases elements with
  | nil =>
    have empty (offset : Nat) :
        Denotes (.many .loose (.rule name)) read offset [] ([closing] ++ rest) [] :=
      .noRounds (Peg.Grammar.fails_of_refuses refused rfl)
    have nothing (offset : Nat) : Skips offset [] ([closing] ++ rest) := .nothing solid
    exact Denotes.bracketed (nothing _) (empty _) (nothing _)
  | cons element elements =>
    rcases element with ⟨part, result⟩
    let start := offset + byteLength [opening] + byteLength (layout.lineBreak (depth + 1))
    obtain ⟨others, closed⟩ := denotes_separate layout depth
      (fun other later => each other (List.mem_cons_of_mem _ later))
      (fun other later => begins other (List.mem_cons_of_mem _ later)) closes solid refused
      (start + byteLength part) rest
    obtain ⟨head, more, same, solidHead⟩ := begins (part, result) List.mem_cons_self
    have first := each (part, result) List.mem_cons_self start _ closed
    have leads (behind : List Char) : Skips (offset + byteLength [opening])
        (layout.lineBreak (depth + 1))
        (part ++ separate layout (depth + 1) (elements.map Prod.fst) ++ behind) := by
      change part = head :: more at same
      rw [same]
      exact skips_lineBreak solidHead
    have listed := Denotes.bracketed (leads _) (first.many others) (skips_lineBreak solid)
    simpa only [wrap, List.map_cons, List.cons_append, List.append_assoc, List.nil_append]
      using listed

end Wrapped

/-! ## Values -/

/-- Whatever the body of the rule denotes, a node value does. -/
theorem denotes_value {written : List Char} {value : Value}
    (denotes : Denotes Rule.nodeValue.body Value.ofContent offset written rest [value]) :
    Denotes (.rule .nodeValue) Value.ofNode offset written rest [value] := by
  refine .node (by decide) denotes ?_
  intro v _ known
  rw [Value.ofNode_eq_bind]
  exact View.required_bind_of_mapM known

/-- A number begins neither an array nor an object, and no trivia. -/
theorem exists_cons_of_write_number (n : Int) :
    ∃ c more, Decimal.write n = c :: more ∧ Solid (some c) ∧
      documentGrammar.refuses (some c) 1 .nodeArray = true ∧
      documentGrammar.refuses (some c) 1 .nodeObject = true :=
  Decimal.exists_cons_of_write (by decide) (by decide) n

/-- No datum is written with a blank in front. -/
theorem exists_cons_of_write (layout : Layout) (depth : Nat) (d : Datum) :
    ∃ head more, write layout depth d = head :: more ∧ Solid (some head) := by
  have wrapped {opening closing : Char} (solid : Solid (some opening)) (parts : List (List Char)) :
      ∃ head more, wrap layout depth opening closing parts = head :: more ∧
        Solid (some head) := by
    cases parts <;> exact ⟨opening, _, rfl, solid⟩
  cases d with
  | null => exact ⟨'n', _, by rw [write], by decide⟩
  | bool b =>
    cases b with
    | true => exact ⟨'t', _, by rw [write], by decide⟩
    | false => exact ⟨'f', _, by rw [write], by decide⟩
  | int n =>
    obtain ⟨c, more, written, solid, -⟩ := exists_cons_of_write_number n
    exact ⟨c, more, by rw [write, written], solid⟩
  | text s => exact ⟨'"', _, by rw [write, quote]; rfl, by decide⟩
  | list items =>
    rw [write_list]
    exact wrapped (by decide) _
  | record fields =>
    rw [write_record]
    exact wrapped (by decide) _

theorem denotes_int {n : Int} (fits : Decimal.IsSigned64 n) (closes : Closes rest) :
    Denotes (.rule .nodeValue) Value.ofNode offset (Decimal.write n) rest
      [.number (.integer n)] := by
  obtain ⟨c, more, written, -, noArray, noObject⟩ := exists_cons_of_write_number n
  have ahead : (Decimal.write n ++ rest).head? = some c := by
    rw [written]
    rfl
  have number : Denotes (.rule .number) Value.ofContent offset (Decimal.write n) rest
      [.number (.integer n)] :=
    denotes_number fits closes
  exact denotes_value (.right (Peg.Grammar.fails_of_refuses noArray ahead)
    (.right (Peg.Grammar.fails_of_refuses noObject ahead) (.left number)))

theorem denotes_word {word : String} {value : Value} (listed : (word, value) ∈ Value.keywords)
    (closes : Closes rest) :
    Denotes (.rule .nodeValue) Value.ofNode offset word.toList rest [value] := by
  have checked : ∀ word ∈ Value.keywords.map Prod.fst, word.toList.head?.isSome = true ∧
      documentGrammar.refuses word.toList.head? 1 .nodeArray = true ∧
      documentGrammar.refuses word.toList.head? 1 .nodeObject = true ∧
      documentGrammar.refuses word.toList.head? 2 .number = true := by
    decide
  obtain ⟨filled, noArray, noObject, noNumber⟩ := checked word (List.mem_map_of_mem listed)
  have ahead : (word.toList ++ rest).head? = word.toList.head? := by
    rw [List.head?_append, Option.or_of_isSome filled]
  exact denotes_value (.right (Peg.Grammar.fails_of_refuses noArray ahead)
    (.right (Peg.Grammar.fails_of_refuses noObject ahead)
      (.right (Peg.Grammar.fails_of_refuses noNumber ahead)
        (.left (denotes_keyword listed closes)))))

/-- A text is read back however many quotes and escapes are in it. -/
theorem denotes_text (s : String) (closes : Closes rest) :
    Denotes (.rule .nodeValue) Value.ofNode offset (quote s) rest [.string s] := by
  have refused : documentGrammar.refuses (some '"') 1 .nodeArray = true ∧
      documentGrammar.refuses (some '"') 1 .nodeObject = true ∧
      documentGrammar.refuses (some '"') 2 .number = true ∧
      documentGrammar.refuses (some '"') 1 .nodeKeyword = true := by
    decide
  rcases refused with ⟨noArray, noObject, noNumber, noKeyword⟩
  exact denotes_value (.right (Peg.Grammar.fails_of_refuses noArray rfl)
    (.right (Peg.Grammar.fails_of_refuses noObject rfl)
      (.right (Peg.Grammar.fails_of_refuses noNumber rfl)
        (.right (Peg.Grammar.fails_of_refuses noKeyword rfl) (denotes_string s closes)))))

/-- A list denotes the values of its elements, in their order. -/
theorem denotes_list {layout : Layout} {depth : Nat} {items : List Datum}
    (each : ∀ item ∈ items, ∀ offset rest, Closes rest →
      Denotes (.rule .nodeValue) Value.ofNode offset (write layout (depth + 1) item) rest
        [item.value]) :
    Denotes (.rule .nodeValue) Value.ofNode offset (write layout depth (.list items)) rest
      [.array (items.map Datum.value)] := by
  let elements := items.map fun item => (write layout (depth + 1) item, item.value)
  have listed : Denotes Rule.nodeArray.body Value.ofNode offset
      (wrap layout depth '[' ']' (elements.map Prod.fst)) rest (elements.map Prod.snd) := by
    refine denotes_wrap layout depth ?_ ?_ (by decide) (by decide) (by decide)
    · intro element member
      obtain ⟨item, inside, rfl⟩ := List.mem_map.mp member
      exact each item inside
    · intro element member
      obtain ⟨item, -, rfl⟩ := List.mem_map.mp member
      exact exists_cons_of_write layout (depth + 1) item
  have array : Denotes (.rule .nodeArray) Value.ofContent offset
      (wrap layout depth '[' ']' (elements.map Prod.fst)) rest
      [.array (elements.map Prod.snd)] := by
    refine .node (by decide) listed ?_
    intro v kind known
    rw [Value.ofContent_of_array kind, known]
    rfl
  have parts : elements.map Prod.fst = items.map (write layout (depth + 1)) := by
    simp [elements]
  have results : elements.map Prod.snd = items.map Datum.value := by simp [elements]
  rw [parts, results] at array
  rw [write_list]
  exact denotes_value (.left array)

/-- A field denotes its name and its value. -/
theorem denotes_field {layout : Layout} {depth : Nat} {field : String × Datum}
    (value : ∀ offset, Denotes (.rule .nodeValue) Value.ofNode offset
      (write layout depth field.2) rest [field.2.value]) :
    Denotes (.rule .nodeObjectKvp) Value.entryOfNode offset (writeField layout depth field) rest
      [(field.1, field.2.value)] := by
  rcases field with ⟨name, d⟩
  obtain ⟨head, more, begins, solid⟩ := exists_cons_of_write layout depth d
  -- Behind the colon stands one space in the one layout, and none in the other.
  obtain ⟨space, colon, blank⟩ : ∃ space, layout.colon = [':'] ++ space ∧
      ∀ c ∈ space, c = ' ' ∨ c = '\n' ∨ c = ',' := by
    cases layout with
    | compact => exact ⟨[], rfl, by simp⟩
    | indented => exact ⟨[' '], rfl, by simp⟩
  have pair : DenotesPair Rule.nodeObjectKvp.body offset
      (quote name ++ ([] ++ ([':'] ++ (space ++ write layout depth d)))) rest name d.value := by
    have spaced (offset : Nat) : Skips offset space (write layout depth d ++ rest) := by
      rw [begins]
      exact .blanks blank solid
    have marks : Solid (some ':') := by decide
    exact Denotes.pair (denotes_key name) (.nothing marks) (spaced _) (value _)
  have written : writeField layout depth (name, d) =
      quote name ++ ([] ++ ([':'] ++ (space ++ write layout depth d))) := by
    rw [writeField, colon, List.append_assoc, List.nil_append]
  rw [written]
  refine .ofPair (by decide) pair ?_
  intro v keyNode valueNode keyFound keyRead valueFound valueRead
  rw [Value.entryOfNode, NodeObjectKvp.key, NodeObjectKvp.value, keyFound, Outcome.ok_bind,
    keyRead, Outcome.ok_bind, valueFound, Outcome.ok_bind, valueRead]
  rfl

/-- A record denotes its fields, in their order. -/
theorem denotes_record {layout : Layout} {depth : Nat} {fields : List (String × Datum)}
    (each : ∀ field ∈ fields, ∀ offset rest, Closes rest →
      Denotes (.rule .nodeValue) Value.ofNode offset (write layout (depth + 1) field.2) rest
        [field.2.value]) :
    Denotes (.rule .nodeValue) Value.ofNode offset (write layout depth (.record fields)) rest
      [.object (fields.map fun (name, field) => (name, field.value))] := by
  let elements := fields.map fun field =>
    (writeField layout (depth + 1) field, (field.1, field.2.value))
  have listed : Denotes Rule.nodeObject.body Value.entryOfNode offset
      (wrap layout depth '\x7b' '\x7d' (elements.map Prod.fst)) rest (elements.map Prod.snd) := by
    refine denotes_wrap layout depth ?_ ?_ (by decide) (by decide) (by decide)
    · intro element member offset rest closes
      obtain ⟨field, inside, rfl⟩ := List.mem_map.mp member
      exact denotes_field fun offset => each field inside offset rest closes
    · intro element member
      obtain ⟨field, -, rfl⟩ := List.mem_map.mp member
      exact ⟨'"', _, rfl, by decide⟩
  have object : Denotes (.rule .nodeObject) Value.ofContent offset
      (wrap layout depth '\x7b' '\x7d' (elements.map Prod.fst)) rest
      [.object (elements.map Prod.snd)] := by
    refine .node (by decide) listed ?_
    intro v kind known
    rw [Value.ofContent_of_object kind, known]
    rfl
  have parts : elements.map Prod.fst = fields.map (writeField layout (depth + 1)) := by
    simp [elements]
  have results : elements.map Prod.snd = fields.map fun (name, field) => (name, field.value) := by
    simp [elements]
  rw [parts, results] at object
  rw [write_record]
  have noArray : documentGrammar.refuses (some '\x7b') 1 .nodeArray = true := by decide
  refine denotes_value (.right (Peg.Grammar.fails_of_refuses noArray ?_) (.left object))
  cases fields <;> rfl

/-- The JSON of a datum is a node value that denotes the datum, in front of whatever
follows a value. -/
theorem denotes_write (layout : Layout) (d : Datum) (fits : d.Fits) (depth offset : Nat)
    (rest : List Char) (closes : Closes rest) :
    Denotes (.rule .nodeValue) Value.ofNode offset (write layout depth d) rest [d.value] := by
  cases fits with
  | null =>
    have listed : ("null", Value.null) ∈ Value.keywords := by simp [Value.keywords]
    rw [write, Datum.value]
    exact denotes_word listed closes
  | @bool b =>
    rw [Datum.value]
    cases b with
    | true =>
      have listed : ("true", Value.bool true) ∈ Value.keywords := by simp [Value.keywords]
      rw [write]
      exact denotes_word listed closes
    | false =>
      have listed : ("false", Value.bool false) ∈ Value.keywords := by simp [Value.keywords]
      rw [write]
      exact denotes_word listed closes
  | int small =>
    rw [write, Datum.value]
    exact denotes_int small closes
  | text =>
    rw [write, Datum.value]
    exact denotes_text _ closes
  | @list items each =>
    rw [Datum.value, Datum.values_eq_map]
    refine denotes_list fun item member offset rest closes => ?_
    exact denotes_write layout item (each item member) (depth + 1) offset rest closes
  | @record fields each =>
    rw [Datum.value, Datum.entries_eq_map]
    refine denotes_record fun field member offset rest closes => ?_
    exact denotes_write layout field.2 (each field member) (depth + 1) offset rest closes
termination_by sizeOf d
decreasing_by
  · have below := List.sizeOf_lt_of_mem member
    simp only [Datum.list.sizeOf_spec]
    omega
  · have below := List.sizeOf_lt_of_mem member
    have inner : sizeOf field.2 < sizeOf field := by
      rcases field with ⟨name, d⟩
      simp only [Prod.mk.sizeOf_spec]
      omega
    simp only [Datum.record.sizeOf_spec]
    omega

end Json

end ServiceIdl
