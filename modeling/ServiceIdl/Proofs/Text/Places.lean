import ServiceIdl.Text.Bytes

/-!
# Places in a text

An offset is a place in a text if it lies between two characters or at one of the ends.
What stands in a span of a text, and what follows an offset, is said by taking the text
apart there (`Text.Holds`, `Text.Follows`).
-/

namespace ServiceIdl

namespace Text

/-- An offset between two characters of a text, or at one of its ends. -/
def IsBoundary (text : List Char) (offset : Nat) : Prop :=
  ∃ before after, text = before ++ after ∧ byteLength before = offset

/-- Behind `offset` bytes of a text follows `rest`. -/
def Follows (text : List Char) (offset : Nat) (rest : List Char) : Prop :=
  ∃ before, text = before ++ rest ∧ byteLength before = offset

/-- The span of a text holds `part`. -/
def Holds (text : List Char) (span : Span) (part : List Char) : Prop :=
  ∃ before after, text = before ++ (part ++ after) ∧ byteLength before = span.start ∧
    span.stop = span.start + byteLength part

theorem IsBoundary.le {text : List Char} {offset : Nat} (boundary : IsBoundary text offset) :
    offset ≤ byteLength text := by
  rcases boundary with ⟨before, after, rfl, rfl⟩
  rw [byteLength_append]
  omega

/-- Behind what was read one is further in the text. -/
theorem Follows.skip {text front rest : List Char} {offset : Nat}
    (follows : Follows text offset (front ++ rest)) :
    Follows text (offset + byteLength front) rest := by
  rcases follows with ⟨before, split, place⟩
  refine ⟨before ++ front, by rw [split, List.append_assoc], ?_⟩
  rw [byteLength_append, place]

/-- Where a rest of the text follows there is a boundary. -/
theorem Follows.isBoundary {text rest : List Char} {offset : Nat}
    (follows : Follows text offset rest) : IsBoundary text offset := by
  rcases follows with ⟨before, split, place⟩
  exact ⟨before, rest, split, place⟩

/-- What stands in front of the rest is what the text holds there. -/
theorem Follows.holds {text part rest : List Char} {offset : Nat}
    (follows : Follows text offset (part ++ rest)) :
    Holds text ⟨offset, offset + byteLength part⟩ part := by
  rcases follows with ⟨before, split, place⟩
  exact ⟨before, rest, split, place, rfl⟩

theorem byteLength_eq_zero {text : List Char} : byteLength text = 0 ↔ text = [] := by
  cases text with
  | nil => simp [byteLength]
  | cons c rest =>
    have := c.utf8Size_pos
    simp only [byteLength, reduceCtorEq, iff_false]
    omega

/-- A text has one front of each length. -/
theorem append_inj_of_byteLength {a b c d : List Char} (same : a ++ b = c ++ d)
    (length : byteLength a = byteLength c) : a = c ∧ b = d := by
  have left : cut? (byteLength c) (c ++ d) = some (a, b) :=
    cut?_eq_some_iff.mpr ⟨same.symm, length⟩
  have right : cut? (byteLength c) (c ++ d) = some (c, d) := cut?_eq_some_iff.mpr ⟨rfl, rfl⟩
  exact Prod.mk.inj (Option.some.inj (left.symm.trans right))

/-- Of two fronts of a text the shorter begins the longer. -/
theorem exists_append_of_byteLength_le {a b c d : List Char} (same : a ++ b = c ++ d)
    (shorter : byteLength a ≤ byteLength c) : ∃ between, c = a ++ between ∧ b = between ++ d := by
  rcases List.append_eq_append_iff.mp same with ⟨between, front, behind⟩ | ⟨more, front, behind⟩
  · exact ⟨between, front, behind⟩
  · rw [front, byteLength_append] at shorter
    have nothing : more = [] := byteLength_eq_zero.mp (by omega)
    refine ⟨[], ?_, ?_⟩
    · rw [front, nothing, List.append_nil, List.append_nil]
    · rw [behind, nothing]
      rfl

theorem Holds.unique {text a b : List Char} {span : Span} (left : Holds text span a)
    (right : Holds text span b) : a = b := by
  rcases left with ⟨before, after, split, start, stop⟩
  rcases right with ⟨before', after', split', start', stop'⟩
  rw [split] at split'
  have behind := (append_inj_of_byteLength split' (start.trans start'.symm)).2
  exact (append_inj_of_byteLength behind (by omega)).1

/-- What stands in a span stands there part by part. -/
theorem Holds.split {text a b : List Char} {start stop : Nat}
    (holds : Holds text ⟨start, stop⟩ (a ++ b)) :
    Holds text ⟨start, start + byteLength a⟩ a ∧
      Holds text ⟨start + byteLength a, stop⟩ b := by
  rcases holds with ⟨before, after, split, place, length⟩
  refine ⟨⟨before, b ++ after, ?_, place, rfl⟩, ⟨before ++ a, after, ?_, ?_, ?_⟩⟩
  · rw [split, List.append_assoc]
  · rw [split, List.append_assoc, List.append_assoc]
  · rw [byteLength_append, place]
  · rw [byteLength_append] at length
    change stop = start + (byteLength a + byteLength b) at length
    change stop = start + byteLength a + byteLength b
    omega

end Text

/-- The span begins and ends at places in the text, in this order. -/
def Span.IsOf (text : List Char) (span : Span) : Prop := ∃ part, Text.Holds text span part

theorem Span.IsOf.le {text : List Char} {span : Span} (isOf : span.IsOf text) :
    span.start ≤ Text.byteLength text ∧ span.stop ≤ Text.byteLength text := by
  rcases isOf with ⟨part, before, after, rfl, start, stop⟩
  rw [Text.byteLength_append, Text.byteLength_append]
  omega

theorem Text.IsBoundary.isOf {text : List Char} {offset : Nat}
    (boundary : Text.IsBoundary text offset) : (Span.point offset).IsOf text := by
  rcases boundary with ⟨before, after, split, place⟩
  exact ⟨[], before, after, split, place, rfl⟩

end ServiceIdl
