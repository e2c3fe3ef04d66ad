import ServiceIdl.Proofs.Decimal.Written
import ServiceIdl.Render.Json
import ServiceIdl.Text.Escape

/-!
# Escapes are resolved again

What `Json.escape` writes for a character, `Text.unescape` reads as that character,
whatever follows (`Text.unescape_escape_append`); so a text comes back from between
its quotes (`Text.unescape_flatMap_escape`). An escaped text is also a row of pieces
none of which is a bare quote, so a quoted text does not end early
(`Json.exists_pieces`).
-/

namespace ServiceIdl

/-- A character stands for itself, or it is written as a backslash with a letter, or
by its code point. -/
theorem Json.escape_cases (c : Char) :
    (Json.escape c = [c] ∧ c ≠ '"' ∧ c ≠ '\\') ∨
      (∃ d, Json.escape c = ['\\', d] ∧ Text.letterEscape? d = some c) ∨
      (Json.escape c = '\\' :: 'u' :: Text.hex 4 c.toNat ∧ c.toNat < 0x10000) := by
  unfold Json.escape
  split
  · rename_i same
    exact .inr (.inl ⟨'"', rfl, by rw [same]; rfl⟩)
  split
  · rename_i same
    exact .inr (.inl ⟨'\\', rfl, by rw [same]; rfl⟩)
  split
  · rename_i noQuote noMark _
    exact .inl ⟨rfl, noQuote, noMark⟩
  split
  · rename_i same
    exact .inr (.inl ⟨'b', rfl, by rw [same]; rfl⟩)
  split
  · rename_i same
    exact .inr (.inl ⟨'t', rfl, by rw [same]; rfl⟩)
  split
  · rename_i same
    exact .inr (.inl ⟨'n', rfl, by rw [same]; rfl⟩)
  split
  · rename_i same
    exact .inr (.inl ⟨'f', rfl, by rw [same]; rfl⟩)
  split
  · rename_i same
    exact .inr (.inl ⟨'r', rfl, by rw [same]; rfl⟩)
  -- What is left are the other control characters, all below the space.
  · rename_i control _ _ _ _ _
    have below : c < ' ' := Char.not_le.mp control
    have bound : c.toNat < ' '.toNat := below
    exact .inr (.inr ⟨rfl, Nat.lt_trans bound (by decide)⟩)

namespace Text

/-- Every character has a code point that is read back. -/
theorem ofCodePoint?_toNat (c : Char) : ofCodePoint? c.toNat = some c := by
  have valid : c.toNat.isValidChar := c.valid
  rw [ofCodePoint?, if_pos valid, Char.ofNat_toNat]

/-- A number below `0x10000` is read back from its four digits. -/
theorem hexNumber?_hex {n : Nat} (small : n < 0x10000) : hexNumber? (hex 4 n) = some n := by
  have filled : hex 4 n ≠ [] := by
    intro none
    have length := length_hex 4 n
    rw [none] at length
    cases length
  have unsigned : hexNumber? (hex 4 n) = number? 16 (hex 4 n) := by
    unfold hexNumber?
    split
    · rename_i digits plus
      have first := digits?_hex 4 n
      rw [plus, digits?] at first
      cases first
    · rfl
  have bounded : n < 16 ^ 4 := small
  rw [unsigned, number?, List.isEmpty_eq_false_iff.mpr filled]
  change digits? 16 0 (hex 4 n) = some n
  rw [digits?_hex, Nat.mod_eq_of_lt bounded]

/-! ## Reading what is escaped -/

theorem unescape_cons {c : Char} (plain : c ≠ '\\') (rest : List Char) :
    unescape (c :: rest) = c :: unescape rest := by
  rw [unescape.eq_def]
  split <;> simp_all

/-- A letter behind a backslash is replaced by what it stands for. -/
theorem unescape_letter {c d : Char} (letter : letterEscape? c = some d) (rest : List Char) :
    unescape ('\\' :: c :: rest) = d :: unescape rest := by
  have notUnicode : c ≠ 'u' := by
    rintro rfl
    cases letter
  have notFeed : c ≠ '\n' := by
    rintro rfl
    cases letter
  rw [unescape.eq_def]
  grind

/-- Four digits behind a backslash and `u` are replaced by the character they number. -/
theorem unescape_codePoint {n : Nat} {c : Char} (small : n < 0x10000)
    (point : ofCodePoint? n = some c) (rest : List Char) :
    unescape ('\\' :: 'u' :: (hex 4 n ++ rest)) = c :: unescape rest := by
  have front : (hex 4 n ++ rest).take 4 = hex 4 n := List.take_left' (length_hex 4 n)
  have behind : (hex 4 n ++ rest).drop 4 = rest := List.drop_left' (length_hex 4 n)
  rw [unescape, front, behind, hexNumber?_hex small, Option.bind_some, point]

/-- An escaped character is read as itself. -/
theorem unescape_escape_append (c : Char) (rest : List Char) :
    unescape (Json.escape c ++ rest) = c :: unescape rest := by
  rcases Json.escape_cases c with ⟨same, -, plain⟩ | ⟨d, same, letter⟩ | ⟨same, small⟩
  · rw [same]
    exact unescape_cons plain rest
  · rw [same]
    exact unescape_letter letter rest
  · rw [same]
    exact unescape_codePoint small (ofCodePoint?_toNat c) rest

/-- A text comes back from its escapes. -/
theorem unescape_flatMap_escape (text : List Char) :
    unescape (text.flatMap Json.escape) = text := by
  induction text with
  | nil => rw [List.flatMap_nil, unescape]
  | cons c text ih => rw [List.flatMap_cons, unescape_escape_append, ih]

end Text

namespace Json

/-! ## Pieces of quoted texts -/

/-- One character of a quoted text as it is written: a backslash with a character
behind it, or a character that is neither quote nor backslash. -/
def IsPiece (piece : List Char) : Prop :=
  (∃ c, piece = ['\\', c]) ∨ ∃ c, c ≠ '"' ∧ c ≠ '\\' ∧ piece = [c]

theorem isPiece_of_mem_hex {width n : Nat} {c : Char} (member : c ∈ Text.hex width n) :
    IsPiece [c] := by
  induction width generalizing n with
  | zero => cases member
  | succ width ih =>
    rcases List.mem_append.mp member with front | last
    · exact ih front
    · have checked : ∀ d < 16, Nat.digitChar d ≠ '"' ∧ Nat.digitChar d ≠ '\\' := by decide
      rw [List.mem_singleton.mp last]
      obtain ⟨noQuote, noMark⟩ := checked (n % 16) (Nat.mod_lt n (by decide))
      exact .inr ⟨_, noQuote, noMark, rfl⟩

/-- What a character is escaped as is made of pieces of a quoted text. -/
theorem exists_pieces_of_escape (c : Char) :
    ∃ pieces : List (List Char), escape c = pieces.flatten ∧ ∀ piece ∈ pieces, IsPiece piece := by
  rcases escape_cases c with ⟨same, noQuote, noMark⟩ | ⟨d, same, -⟩ | ⟨same, -⟩
  · have piece : IsPiece [c] := .inr ⟨c, noQuote, noMark, rfl⟩
    exact ⟨[[c]], same, by simpa using piece⟩
  · have piece : IsPiece ['\\', d] := .inl ⟨d, rfl⟩
    exact ⟨[['\\', d]], same, by simpa using piece⟩
  · refine ⟨['\\', 'u'] :: (Text.hex 4 c.toNat).map fun d => [d], ?_, ?_⟩
    · rw [same, List.flatten_cons, ← List.flatMap_def, List.flatMap_singleton']
      rfl
    · intro piece member
      rcases List.mem_cons.mp member with rfl | later
      · exact .inl ⟨'u', rfl⟩
      · obtain ⟨d, digit, rfl⟩ := List.mem_map.mp later
        exact isPiece_of_mem_hex digit

/-- An escaped text is a row of pieces. -/
theorem exists_pieces (text : List Char) :
    ∃ pieces : List (List Char), text.flatMap escape = pieces.flatten ∧
      ∀ piece ∈ pieces, IsPiece piece := by
  induction text with
  | nil => exact ⟨[], rfl, by simp⟩
  | cons c text ih =>
    obtain ⟨front, escaped, frontPieces⟩ := exists_pieces_of_escape c
    rcases ih with ⟨behind, others, behindPieces⟩
    refine ⟨front ++ behind, ?_, ?_⟩
    · rw [List.flatMap_cons, escaped, others, List.flatten_append]
    · intro piece member
      rcases List.mem_append.mp member with here | there
      · exact frontPieces piece here
      · exact behindPieces piece there

/-- An escape begins with something else than a quote. -/
theorem exists_cons_of_escape (c : Char) : ∃ d others, escape c = d :: others ∧ d ≠ '"' := by
  rcases escape_cases c with ⟨same, noQuote, -⟩ | ⟨d, same, -⟩ | ⟨same, -⟩
  · exact ⟨c, [], same, noQuote⟩
  · exact ⟨'\\', [d], same, by decide⟩
  · exact ⟨'\\', 'u' :: Text.hex 4 c.toNat, same, by decide⟩

end Json

end ServiceIdl
