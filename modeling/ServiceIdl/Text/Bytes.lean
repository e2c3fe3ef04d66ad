/-!
# Byte offsets in a text

Positions are counted in UTF-8 bytes, while a text is handled as its list of
characters. `byteLength` measures a text, `cut?` takes a text apart at a byte
offset, and refuses an offset past the end or inside a character. `Span` is a
half-open range of byte offsets.
-/

namespace ServiceIdl

/-- A half-open range of byte offsets. -/
structure Span where
  /-- The offset of the first byte. -/
  start : Nat
  /-- The offset just past the last byte. -/
  stop : Nat
deriving DecidableEq, Repr, Inhabited

/-- The empty span at an offset. -/
def Span.point (offset : Nat) : Span := ⟨offset, offset⟩

namespace Text

/-- The number of bytes a text takes in UTF-8. -/
def byteLength : List Char → Nat
  | [] => 0
  | c :: rest => c.utf8Size + byteLength rest

/-- Takes a text apart after exactly `n` bytes. There is no such place past the
end or inside a character. -/
def cut? : Nat → List Char → Option (List Char × List Char)
  | 0, text => some ([], text)
  | _ + 1, [] => none
  | n + 1, c :: rest =>
    if c.utf8Size ≤ n + 1 then
      (cut? (n + 1 - c.utf8Size) rest).map fun (before, after) => (c :: before, after)
    else none

/-- The text behind `lead`, if it begins with `lead`. -/
def dropLead? : List Char → List Char → Option (List Char)
  | [], text => some text
  | _ :: _, [] => none
  | c :: lead, d :: rest => if c = d then dropLead? lead rest else none

/-- The text before `tail`, if it ends with `tail`. -/
def dropTail? (tail text : List Char) : Option (List Char) :=
  (dropLead? tail.reverse text.reverse).map List.reverse

/-- Takes a text apart at its first `c`, which belongs to neither part. -/
def splitAt? (c : Char) : List Char → Option (List Char × List Char)
  | [] => none
  | d :: rest =>
    if d = c then some ([], rest)
    else (splitAt? c rest).map fun (before, after) => (d :: before, after)

/-! ## What taking apart means -/

@[simp] theorem byteLength_append (a b : List Char) :
    byteLength (a ++ b) = byteLength a + byteLength b := by
  induction a with
  | nil => simp [byteLength]
  | cons c a ih => simp [byteLength, ih, Nat.add_assoc]

/-- A text is taken apart after `n` bytes exactly where its front has `n` bytes. -/
theorem cut?_eq_some_iff {n : Nat} {text before after : List Char} :
    cut? n text = some (before, after) ↔ text = before ++ after ∧ byteLength before = n := by
  induction text generalizing n before with
  | nil =>
    cases n with
    | zero =>
      cases before with
      | nil => simp [cut?, byteLength, eq_comm]
      | cons c before => simp [cut?]
    | succ n =>
      cases before with
      | nil => simp [cut?, byteLength]
      | cons c before => simp [cut?]
  | cons c rest ih =>
    have positive := c.utf8Size_pos
    cases n with
    | zero =>
      cases before with
      | nil => simp [cut?, byteLength, eq_comm]
      | cons d before =>
        have := d.utf8Size_pos
        simp only [cut?, byteLength, Option.some.injEq, Prod.mk.injEq, List.nil_eq, reduceCtorEq,
          false_and, false_iff, not_and]
        omega
    | succ n =>
      simp only [cut?]
      cases before with
      | nil =>
        split
        · simp [byteLength]
        · simp [byteLength]
      | cons d before =>
        split
        · simp only [Option.map_eq_some_iff, Prod.mk.injEq, Prod.exists, List.cons.injEq,
            List.cons_append, byteLength]
          constructor
          · rintro ⟨a, b, found, ⟨rfl, rfl⟩, rfl⟩
            obtain ⟨rfl, length⟩ := ih.mp found
            exact ⟨⟨rfl, rfl⟩, by omega⟩
          · rintro ⟨⟨rfl, rfl⟩, length⟩
            exact ⟨before, after, ih.mpr ⟨rfl, by omega⟩, ⟨rfl, rfl⟩, rfl⟩
        · simp only [List.cons_append, List.cons.injEq, byteLength, reduceCtorEq, false_iff,
            not_and]
          rintro ⟨rfl, -⟩
          omega

/-- What can be dropped in front of a text is what it begins with. -/
theorem dropLead?_eq_some_iff {lead text rest : List Char} :
    dropLead? lead text = some rest ↔ text = lead ++ rest := by
  induction lead generalizing text with
  | nil => simp [dropLead?]
  | cons c lead ih =>
    cases text with
    | nil => simp [dropLead?]
    | cons d text =>
      by_cases same : c = d
      · subst same
        simp [dropLead?, ih]
      · simp [dropLead?, same, Ne.symm same]

/-- What can be dropped behind a text is what it ends with. -/
theorem dropTail?_eq_some_iff {tail text rest : List Char} :
    dropTail? tail text = some rest ↔ text = rest ++ tail := by
  simp only [dropTail?, Option.map_eq_some_iff, dropLead?_eq_some_iff]
  constructor
  · rintro ⟨front, reversed, rfl⟩
    simpa using congrArg List.reverse reversed
  · rintro rfl
    exact ⟨rest.reverse, by simp, by simp⟩

/-- A text is split at the first occurrence of the character. -/
theorem splitAt?_eq_some_iff {c : Char} {text before after : List Char} :
    splitAt? c text = some (before, after) ↔ text = before ++ c :: after ∧ c ∉ before := by
  induction text generalizing before with
  | nil => simp [splitAt?]
  | cons d rest ih =>
    by_cases same : d = c
    · subst same
      cases before with
      | nil => simp [splitAt?, eq_comm]
      | cons e before =>
        simp only [splitAt?, ↓reduceIte, Option.some.injEq, Prod.mk.injEq, List.nil_eq,
          reduceCtorEq, false_and, List.cons_append, List.cons.injEq, List.mem_cons, not_or,
          false_iff, not_and]
        rintro ⟨rfl, -⟩ absent
        exact absurd rfl absent
    · cases before with
      | nil => simp [splitAt?, same]
      | cons e before =>
        simp only [splitAt?, same, ↓reduceIte, Option.map_eq_some_iff, Prod.mk.injEq, Prod.exists,
          List.cons.injEq, List.cons_append, List.mem_cons, not_or]
        constructor
        · rintro ⟨a, b, found, ⟨rfl, rfl⟩, rfl⟩
          obtain ⟨rfl, absent⟩ := ih.mp found
          exact ⟨⟨rfl, rfl⟩, Ne.symm same, absent⟩
        · rintro ⟨⟨rfl, rfl⟩, -, absent⟩
          exact ⟨before, after, ih.mpr ⟨rfl, absent⟩, ⟨rfl, rfl⟩, rfl⟩

/-- A text is not split if it does not have the character. -/
theorem splitAt?_eq_none_iff {c : Char} {text : List Char} :
    splitAt? c text = none ↔ c ∉ text := by
  induction text with
  | nil => simp [splitAt?]
  | cons d rest ih =>
    by_cases same : d = c
    · simp [splitAt?, same]
    · simp [splitAt?, same, ih, Ne.symm same]

end Text

end ServiceIdl
