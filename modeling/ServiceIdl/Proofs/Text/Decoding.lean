import Mathlib.Logic.ExistsUnique
import ServiceIdl.Proofs.Text.Escape

/-!
# Escapes from left to right

A text with escapes is decoded from left to right (`Text.Decodes`). How a `\u` is read is a
parameter of this account: by `Text.FourDigits` it takes exactly four hexadecimal digits that
are the code point of a character, and otherwise only itself stays as written; by
`Text.NextFour` it takes the next four characters, or as many as there are, whatever they are.

Either way a text has one decoding (`Text.exists_decodes`, `Text.Decodes.unique`). The one by
`NextFour` is what `unescape` gives; it is the one by `FourDigits` as long as no `\u` takes an
escape or a shorter or signed number with it (`Text.unescape_decodes`), and may be another one
otherwise (`Text.unescape_misreads`).
-/

namespace ServiceIdl.Text

/-! ## Hexadecimal numbers -/

/-- The text is a number of at least one hexadecimal digit, of either case. -/
def IsHexNumber (text : List Char) (n : Nat) : Prop :=
  ∃ digits : List Nat, digits ≠ [] ∧ text.map hexDigit? = digits.map some ∧
    n = digits.foldl (16 * · + ·) 0

/-- The text is four hexadecimal digits that are the code point of the character. -/
def IsCodePoint (text : List Char) (c : Char) : Prop :=
  text.length = 4 ∧ IsHexNumber text c.toNat

/-- The text is a hexadecimal number, possibly with a plus sign, that is the code point of the
character. -/
def IsSignedCodePoint (text : List Char) (c : Char) : Prop :=
  ∃ sign number, text = sign ++ number ∧ (sign = [] ∨ sign = ['+']) ∧ IsHexNumber number c.toNat

/-- The distance to the low end of a range is at most the length of the range. -/
theorem toNat_sub_le {c low high : Char} (range : low ≤ c ∧ c ≤ high) :
    c.toNat - low.toNat ≤ high.toNat - low.toNat := Nat.sub_le_sub_right range.2 _

/-- A hexadecimal digit is worth less than sixteen. -/
theorem hexDigit?_lt {c : Char} {digit : Nat} (found : hexDigit? c = some digit) : digit < 16 := by
  have digits : '9'.toNat - '0'.toNat = 9 := by decide
  have small : 'f'.toNat - 'a'.toNat = 5 := by decide
  have large : 'F'.toNat - 'A'.toNat = 5 := by decide
  unfold hexDigit? at found
  split at found
  · rename_i range
    have bound := toNat_sub_le range
    cases found
    omega
  split at found
  · rename_i range
    have bound := toNat_sub_le range
    cases found
    omega
  split at found
  · rename_i range
    have bound := toNat_sub_le range
    cases found
    omega
  · cases found

/-- Every hexadecimal digit is a digit of radix 16. -/
theorem digit?_sixteen (c : Char) : digit? 16 c = hexDigit? c := by
  unfold digit?
  cases found : hexDigit? c with
  | none => rfl
  | some digit => exact Option.filter_some_pos (decide_eq_true (hexDigit?_lt found))

/-- Digits are read in the order of their weights, each of them being one. -/
theorem digits?_eq_some_iff {text : List Char} {value n : Nat} :
    digits? 16 value text = some n ↔
      ∃ digits : List Nat, text.map hexDigit? = digits.map some ∧
        n = digits.foldl (16 * · + ·) value := by
  induction text generalizing value with
  | nil =>
    constructor
    · intro read
      exact ⟨[], rfl, (Option.some.inj read).symm⟩
    · rintro ⟨digits, same, rfl⟩
      cases digits with
      | nil => rfl
      | cons => cases same
  | cons c text ih =>
    rw [digits?, digit?_sixteen, Option.bind_eq_some_iff]
    constructor
    · rintro ⟨digit, first, read⟩
      obtain ⟨digits, same, total⟩ := ih.mp read
      exact ⟨digit :: digits, by rw [List.map_cons, List.map_cons, first, same], total⟩
    · rintro ⟨digits, same, total⟩
      cases digits with
      | nil => cases same
      | cons digit digits =>
        obtain ⟨first, others⟩ := List.cons.inj same
        exact ⟨digit, first, ih.mpr ⟨digits, others, total⟩⟩

/-- A number is what the digits of the whole text come to. -/
theorem number?_eq_some_iff {text : List Char} {n : Nat} :
    number? 16 text = some n ↔ IsHexNumber text n := by
  unfold number? IsHexNumber
  cases text with
  | nil =>
    constructor
    · intro read
      cases read
    · rintro ⟨digits, filled, same, -⟩
      cases digits with
      | nil => exact absurd rfl filled
      | cons => cases same
  | cons c text =>
    rw [List.isEmpty_cons, if_neg (by decide), digits?_eq_some_iff]
    constructor
    · rintro ⟨digits, same, total⟩
      refine ⟨digits, ?_, same, total⟩
      rintro rfl
      cases same
    · rintro ⟨digits, -, read⟩
      exact ⟨digits, read⟩

/-- A code point is read as the character that has it. -/
theorem ofCodePoint?_eq_some_iff {n : Nat} {c : Char} : ofCodePoint? n = some c ↔ n = c.toNat := by
  constructor
  · intro found
    obtain ⟨valid, same⟩ := Option.ite_none_right_eq_some.mp found
    have shown : Char.ofNat n = Char.ofNatAux n valid := dif_pos valid
    rw [← Option.some.inj same]
    exact (congrArg Char.toNat shown).symm
  · rintro rfl
    exact ofCodePoint?_toNat c

/-- The character behind a `\u` is the one whose code point the next characters are. -/
theorem hexNumber?_bind_eq_some_iff {text : List Char} {c : Char} :
    (hexNumber? text).bind ofCodePoint? = some c ↔ IsSignedCodePoint text c := by
  have read (number : List Char) :
      (number? 16 number).bind ofCodePoint? = some c ↔ IsHexNumber number c.toNat := by
    rw [Option.bind_eq_some_iff]
    simp only [ofCodePoint?_eq_some_iff, exists_eq_right, number?_eq_some_iff]
  unfold hexNumber?
  split
  · rename_i number
    rw [read]
    constructor
    · exact fun given => ⟨['+'], number, rfl, .inr rfl, given⟩
    · rintro ⟨sign, number', same, rfl | rfl, given⟩
      · -- A plus sign is no digit.
        obtain ⟨digits, -, spelled, -⟩ := given
        rw [← show '+' :: number = number' from same] at spelled
        cases digits with
        | nil => cases spelled
        | cons digit digits => cases (List.cons.inj spelled).1
      · rwa [(List.cons.inj same).2]
  · rename_i unsigned
    rw [read]
    constructor
    · exact fun given => ⟨[], text, rfl, .inl rfl, given⟩
    · rintro ⟨sign, number, rfl, rfl | rfl, given⟩
      · exact given
      · exact absurd rfl (unsigned number)

/-! ## Decoding -/

/-- The letters that stand for a character behind a backslash, with the character. -/
def letterEscapes : List (Char × Char) :=
  [('n', '\n'), ('t', '\t'), ('r', '\r'), ('b', '\x08'), ('f', '\x0c'), ('"', '"'),
   ('\'', '\''), ('\\', '\\'), ('/', '/')]

/-- The text in front is decoded as the text behind. What is behind a `\u` is read by a rule that
relates it to what the `\u` is decoded as and to the text where decoding goes on. -/
inductive Decodes (rule : List Char → List Char → List Char → Prop) :
    List Char → List Char → Prop
  | nil : Decodes rule [] []
  | plain {c : Char} {rest out : List Char} :
    c ≠ '\\' → Decodes rule rest out → Decodes rule (c :: rest) (c :: out)
  | letter {c d : Char} {rest out : List Char} :
    (c, d) ∈ letterEscapes → Decodes rule rest out → Decodes rule ('\\' :: c :: rest) (d :: out)
  | lineFeed {rest out : List Char} :
    Decodes rule rest out → Decodes rule ('\\' :: '\n' :: rest) out
  | codePoint {rest shown behind out : List Char} :
    rule rest shown behind → Decodes rule behind out →
    Decodes rule ('\\' :: 'u' :: rest) (shown ++ out)
  | unknown {c : Char} {rest out : List Char} :
    (∀ d, (c, d) ∉ letterEscapes) → c ≠ '\n' → c ≠ 'u' → Decodes rule rest out →
    Decodes rule ('\\' :: c :: rest) ('\\' :: c :: out)
  | trailing : Decodes rule ['\\'] ['\\']

/-- Exactly four digits of a code point are taken. Otherwise only the `\u` is, as it stands. -/
inductive FourDigits : List Char → List Char → List Char → Prop
  | digits {digits behind : List Char} {c : Char} :
    IsCodePoint digits c → FourDigits (digits ++ behind) [c] behind
  | malformed {rest : List Char} :
    (∀ digits behind c, rest = digits ++ behind → ¬ IsCodePoint digits c) →
    FourDigits rest ['\\', 'u'] rest

/-- The next four characters are taken, or all that are left, and stay as they stand if they are
no code point. -/
inductive NextFour : List Char → List Char → List Char → Prop
  | number {rest : List Char} {c : Char} :
    IsSignedCodePoint (rest.take 4) c → NextFour rest [c] (rest.drop 4)
  | other {rest : List Char} :
    (∀ c, ¬ IsSignedCodePoint (rest.take 4) c) →
    NextFour rest ('\\' :: 'u' :: rest.take 4) (rest.drop 4)

theorem letterEscape?_eq_some_iff {c d : Char} :
    letterEscape? c = some d ↔ (c, d) ∈ letterEscapes := by
  constructor
  · intro found
    unfold letterEscape? at found
    split at found <;> cases found <;> decide
  · intro listed
    have checked : ∀ pair ∈ letterEscapes, letterEscape? pair.1 = some pair.2 := by decide
    exact checked _ listed

theorem letterEscape?_eq_none_iff {c : Char} :
    letterEscape? c = none ↔ ∀ d, (c, d) ∉ letterEscapes := by
  simp only [Option.eq_none_iff_forall_ne_some, ne_eq, letterEscape?_eq_some_iff]

/-- Neither a line feed nor a `u` stands for a character of the table. -/
theorem ne_of_mem_letterEscapes {c d : Char} (listed : (c, d) ∈ letterEscapes) :
    c ≠ '\n' ∧ c ≠ 'u' := by
  have checked : ∀ pair ∈ letterEscapes, pair.1 ≠ '\n' ∧ pair.1 ≠ 'u' := by decide
  exact checked _ listed

section Rules

variable {rule : List Char → List Char → List Char → Prop}

/-- The rule reads whatever is behind a `\u`, in one way only, and does not go back. -/
structure ReadsOnce (rule : List Char → List Char → List Char → Prop) : Prop where
  total : ∀ rest, ∃ shown behind, rule rest shown behind ∧ behind.length ≤ rest.length
  unique : ∀ {rest shown behind shown' behind'}, rule rest shown behind →
    rule rest shown' behind' → shown = shown' ∧ behind = behind'

/-- A rule that always reads decodes every text, by induction on the length of the text. -/
theorem exists_decodes (reads : ReadsOnce rule) (text : List Char) :
    ∃ out, Decodes rule text out := by
  induction length : text.length using Nat.strongRecOn generalizing text with
  | ind n ih =>
    subst length
    cases text with
    | nil => exact ⟨[], .nil⟩
    | cons c rest =>
      by_cases mark : c = '\\'
      · subst mark
        cases rest with
        | nil => exact ⟨['\\'], .trailing⟩
        | cons c rest =>
          simp only [List.length_cons] at ih
          obtain ⟨out, decoded⟩ := ih rest.length (by omega) rest rfl
          by_cases unicode : c = 'u'
          · subst unicode
            obtain ⟨shown, behind, read, onward⟩ := reads.total rest
            obtain ⟨out, decoded⟩ := ih behind.length (by omega) behind rfl
            exact ⟨shown ++ out, .codePoint read decoded⟩
          by_cases feed : c = '\n'
          · subst feed
            exact ⟨out, .lineFeed decoded⟩
          cases found : letterEscape? c with
          | some d => exact ⟨d :: out, .letter (letterEscape?_eq_some_iff.mp found) decoded⟩
          | none =>
            have unlisted := letterEscape?_eq_none_iff.mp found
            exact ⟨'\\' :: c :: out, .unknown unlisted feed unicode decoded⟩
      · obtain ⟨out, decoded⟩ := ih rest.length (by simp) rest rfl
        exact ⟨c :: out, .plain mark decoded⟩

/-- A rule that reads once decodes a text in at most one way. -/
theorem Decodes.unique (reads : ReadsOnce rule) {text out out' : List Char}
    (left : Decodes rule text out) (right : Decodes rule text out') : out = out' := by
  induction left generalizing out' with
  | nil =>
    cases right
    rfl
  | plain different _ ih =>
    cases right with
    | plain _ right => rw [ih right]
    | letter | lineFeed | codePoint | unknown | trailing => exact absurd rfl different
  | letter listed _ ih =>
    cases right with
    | plain different => exact absurd rfl different
    | letter listed' right =>
      have same := (letterEscape?_eq_some_iff.mpr listed).symm.trans
        (letterEscape?_eq_some_iff.mpr listed')
      rw [Option.some.inj same, ih right]
    | lineFeed => exact absurd rfl (ne_of_mem_letterEscapes listed).1
    | codePoint => exact absurd rfl (ne_of_mem_letterEscapes listed).2
    | unknown unlisted => exact absurd listed (unlisted _)
  | lineFeed _ ih =>
    cases right with
    | plain different => exact absurd rfl different
    | letter listed => exact absurd rfl (ne_of_mem_letterEscapes listed).1
    | lineFeed right => exact ih right
    | unknown _ different => exact absurd rfl different
  | codePoint read _ ih =>
    cases right with
    | plain different => exact absurd rfl different
    | letter listed => exact absurd rfl (ne_of_mem_letterEscapes listed).2
    | codePoint read' right =>
      obtain ⟨rfl, rfl⟩ := reads.unique read read'
      rw [ih right]
    | unknown _ _ different => exact absurd rfl different
  | unknown unlisted feed unicode _ ih =>
    cases right with
    | plain different => exact absurd rfl different
    | letter listed => exact absurd listed (unlisted _)
    | lineFeed => exact absurd rfl feed
    | codePoint => exact absurd rfl unicode
    | unknown _ _ _ right => rw [ih right]
  | trailing =>
    cases right with
    | plain different => exact absurd rfl different
    | trailing => rfl

end Rules

/-! ## Two readings of code points -/

theorem IsHexNumber.unique {text : List Char} {n m : Nat} (left : IsHexNumber text n)
    (right : IsHexNumber text m) : n = m :=
  Option.some.inj ((number?_eq_some_iff.mpr left).symm.trans (number?_eq_some_iff.mpr right))

/-- A text writes one character at most, a sign included. -/
theorem IsSignedCodePoint.unique {text : List Char} {c d : Char}
    (left : IsSignedCodePoint text c) (right : IsSignedCodePoint text d) : c = d :=
  Option.some.inj ((hexNumber?_bind_eq_some_iff.mpr left).symm.trans
    (hexNumber?_bind_eq_some_iff.mpr right))

theorem IsCodePoint.signed {text : List Char} {c : Char} (digits : IsCodePoint text c) :
    IsSignedCodePoint text c :=
  ⟨[], text, rfl, .inl rfl, digits.2⟩

/-- A code point is written in four digits and read as one. -/
theorem isCodePoint_iff {text : List Char} {c : Char} :
    IsCodePoint text c ↔ text.length = 4 ∧ (number? 16 text).bind ofCodePoint? = some c := by
  rw [IsCodePoint, Option.bind_eq_some_iff]
  simp only [ofCodePoint?_eq_some_iff, exists_eq_right, number?_eq_some_iff]

/-- Only the next four characters can be the four digits. -/
theorem FourDigits.kept {rest : List Char} (none : ∀ c, ¬ IsCodePoint (rest.take 4) c) :
    FourDigits rest ['\\', 'u'] rest := by
  refine .malformed ?_
  rintro digits behind c rfl point
  rw [List.take_left' point.1] at none
  exact none c point

/-- What is behind a `\u` that stays as it stands is decoded like any other text. -/
theorem Decodes.kept {rest out : List Char} (none : ∀ c, ¬ IsCodePoint (rest.take 4) c)
    (decoded : Decodes FourDigits rest out) :
    Decodes FourDigits ('\\' :: 'u' :: rest) ('\\' :: 'u' :: out) :=
  .codePoint (.kept none) decoded

/-- Exactly four digits are taken or none, so there is one way to read. -/
theorem readsOnce_fourDigits : ReadsOnce FourDigits where
  total rest := by
    by_cases some : ∃ digits behind c, rest = digits ++ behind ∧ IsCodePoint digits c
    · obtain ⟨digits, behind, c, rfl, point⟩ := some
      refine ⟨[c], behind, .digits point, ?_⟩
      rw [List.length_append]
      omega
    · refine ⟨_, rest, .malformed ?_, Nat.le_refl _⟩
      intro digits behind c split point
      exact some ⟨digits, behind, c, split, point⟩
  unique := by
    intro rest shown behind shown' behind' left right
    cases left with
    | digits point =>
      generalize split : _ ++ behind = rest at right
      cases right with
      | digits point' =>
        obtain ⟨rfl, rfl⟩ := List.append_inj split (point.1.trans point'.1.symm)
        rw [point.signed.unique point'.signed]
        exact ⟨rfl, rfl⟩
      | malformed none => exact absurd point (none _ _ _ split.symm)
    | malformed none =>
      cases right with
      | digits point => exact absurd point (none _ _ _ rfl)
      | malformed => exact ⟨rfl, rfl⟩

/-- The next four characters are taken whatever they are, so there is one way to read. -/
theorem readsOnce_nextFour : ReadsOnce NextFour where
  total rest := by
    have shorter : (rest.drop 4).length ≤ rest.length := by
      rw [List.length_drop]
      omega
    by_cases some : ∃ c, IsSignedCodePoint (rest.take 4) c
    · obtain ⟨c, point⟩ := some
      exact ⟨[c], _, .number point, shorter⟩
    · exact ⟨_, _, .other (not_exists.mp some), shorter⟩
  unique := by
    intro rest shown behind shown' behind' left right
    cases left with
    | number point =>
      cases right with
      | number point' => exact ⟨by rw [point.unique point'], rfl⟩
      | other none => exact absurd point (none _)
    | other none =>
      cases right with
      | number point => exact absurd point (none _)
      | other => exact ⟨rfl, rfl⟩

/-! ## Unescaping -/

/-- `unescape` decodes every text, with the next four characters behind each `\u`. -/
theorem decodes_unescape (text : List Char) : Decodes NextFour text (unescape text) := by
  induction text using unescape.induct with
  | case1 =>
    rw [unescape]
    exact .nil
  | case2 rest c found ih =>
    rw [unescape, found]
    exact .codePoint (.number (hexNumber?_bind_eq_some_iff.mp found)) ih
  | case3 rest none ih =>
    rw [unescape, none]
    refine .codePoint (.other fun c point => ?_) ih
    cases none.symm.trans (hexNumber?_bind_eq_some_iff.mpr point)
  | case4 rest ih =>
    rw [unescape]
    exact .lineFeed ih
  | case5 c rest _ _ d found ih =>
    rw [unescape_letter found]
    exact .letter (letterEscape?_eq_some_iff.mp found) ih
  | case6 c rest unicode feed none ih =>
    have kept : unescape ('\\' :: c :: rest) = '\\' :: c :: unescape rest := by
      rw [unescape, none] <;> assumption
    rw [kept]
    exact .unknown (letterEscape?_eq_none_iff.mp none) feed unicode ih
  | case7 c rest _ _ single ih =>
    by_cases mark : c = '\\'
    · subst mark
      cases rest with
      | nil => simpa [unescape] using Decodes.trailing
      | cons c rest => exact absurd rfl (single c rest rfl)
    · rw [unescape_cons mark]
      exact .plain mark ih

/-! ## Where the two readings agree -/

/-- Four digits of a code point are taken; or four characters, or all that are left, if they are
no code point and no escape begins among them. These stay as they stand. -/
inductive Unmistaken : List Char → List Char → List Char → Prop
  | digits {digits behind : List Char} {c : Char} :
    IsCodePoint digits c → Unmistaken (digits ++ behind) [c] behind
  | kept {rest : List Char} :
    '\\' ∉ rest.take 4 → (∀ c, ¬ IsSignedCodePoint (rest.take 4) c) →
    Unmistaken rest ('\\' :: 'u' :: rest.take 4) (rest.drop 4)

/-- One rule may stand in for another if it decodes what the other one reads. -/
theorem Decodes.mono {rule rule' : List Char → List Char → List Char → Prop}
    (each : ∀ {rest shown behind out}, rule rest shown behind → Decodes rule' behind out →
      Decodes rule' ('\\' :: 'u' :: rest) (shown ++ out))
    {text out : List Char} (decoded : Decodes rule text out) : Decodes rule' text out := by
  induction decoded with
  | nil => exact .nil
  | plain different _ ih => exact .plain different ih
  | letter listed _ ih => exact .letter listed ih
  | lineFeed _ ih => exact .lineFeed ih
  | codePoint read _ ih => exact each read ih
  | unknown unlisted feed unicode _ ih => exact .unknown unlisted feed unicode ih
  | trailing => exact .trailing

/-- A text without a backslash is decoded as it stands. -/
theorem Decodes.plain_append {rule : List Char → List Char → List Char → Prop}
    {front text out : List Char} (plain : '\\' ∉ front) (decoded : Decodes rule text out) :
    Decodes rule (front ++ text) (front ++ out) := by
  induction front with
  | nil => exact decoded
  | cons c front ih =>
    obtain ⟨different, others⟩ := not_or.mp (mt List.mem_cons.mpr plain)
    exact .plain (Ne.symm different) (ih others)

/-- What is not mistaken is what the next four characters give. -/
theorem Unmistaken.nextFour {rest shown behind : List Char}
    (read : Unmistaken rest shown behind) : NextFour rest shown behind := by
  cases read with
  | @digits digits _ c point =>
    have taken : (digits ++ behind).take 4 = digits := List.take_left' point.1
    have number : NextFour (digits ++ behind) [c] ((digits ++ behind).drop 4) := by
      refine .number ?_
      rw [taken]
      exact point.signed
    rwa [List.drop_left' point.1] at number
  | kept _ none => exact .other none

/-- What is not mistaken is also decoded by taking exactly four digits. -/
theorem Unmistaken.decodes {rest shown behind out : List Char}
    (read : Unmistaken rest shown behind) (decoded : Decodes FourDigits behind out) :
    Decodes FourDigits ('\\' :: 'u' :: rest) (shown ++ out) := by
  cases read with
  | digits point => exact .codePoint (.digits point) decoded
  | kept plain none =>
    have others : Decodes FourDigits rest (rest.take 4 ++ out) := by
      have taken := decoded.plain_append plain
      rwa [List.take_append_drop] at taken
    exact .kept (fun c point => none c point.signed) others

/-- `unescape` gives every text the one decoding that takes the next four characters behind each
`\u`. This is the one that takes exactly four digits if these do not mistake any `\u`. -/
theorem unescape_decodes (text : List Char) :
    (∀ out, Decodes NextFour text out ↔ out = unescape text) ∧
      (∃! out, Decodes FourDigits text out) ∧
      ∀ out, Decodes Unmistaken text out → out = unescape text ∧ Decodes FourDigits text out := by
  have only {out : List Char} (decoded : Decodes NextFour text out) : out = unescape text :=
    decoded.unique readsOnce_nextFour (decodes_unescape text)
  refine ⟨fun out => ⟨only, ?_⟩, ?_, fun out decoded => ⟨?_, ?_⟩⟩
  · rintro rfl
    exact decodes_unescape text
  · obtain ⟨out, decoded⟩ := exists_decodes readsOnce_fourDigits text
    exact ⟨out, decoded, fun other decoded' => decoded'.unique readsOnce_fourDigits decoded⟩
  · exact only (decoded.mono fun read later => .codePoint read.nextFour later)
  · exact decoded.mono Unmistaken.decodes

/-- A code point, half of a surrogate pair with a line feed behind it, a letter that stands for
nothing, and a backslash at the end. -/
theorem unescape_decodes_surrogate :
    let text := "\\u0041\\ud83d\\n\\q\\".toList
    let out := "A\\ud83d\n\\q\\".toList
    Decodes Unmistaken text out ∧ out = unescape text ∧ Decodes FourDigits text out := by
  intro text out
  have letter : IsCodePoint ['0', '0', '4', '1'] 'A' := isCodePoint_iff.mpr ⟨rfl, rfl⟩
  have half (c : Char) : ¬ IsSignedCodePoint ['d', '8', '3', 'd'] c := by
    rw [← hexNumber?_bind_eq_some_iff]
    exact Option.some_ne_none c ∘ Eq.symm
  have rest : Decodes Unmistaken ['\\', 'n', '\\', 'q', '\\'] ['\n', '\\', 'q', '\\'] := by
    have unlisted : ∀ d, ('q', d) ∉ letterEscapes := letterEscape?_eq_none_iff.mp rfl
    exact .letter (by decide) (.unknown unlisted (by decide) (by decide) .trailing)
  have surrogate : Unmistaken "d83d\\n\\q\\".toList "\\ud83d".toList "\\n\\q\\".toList :=
    .kept (by decide) half
  have first : Unmistaken "0041\\ud83d\\n\\q\\".toList ['A'] "\\ud83d\\n\\q\\".toList :=
    .digits letter
  have decoded := Decodes.codePoint first (Decodes.codePoint surrogate rest)
  exact ⟨decoded, (unescape_decodes text).2.2 out decoded⟩

theorem not_isCodePoint {text : List Char} (none : text.length ≠ 4 ∨ number? 16 text = none)
    (c : Char) : ¬ IsCodePoint text c := by
  rw [isCodePoint_iff]
  rintro ⟨length, read⟩
  rcases none with short | none
  · exact short length
  · rw [none] at read
    cases read

/-- No four digits are behind the `\u` of any of these texts: there is a number with a sign, a
shorter one at the end of the text, and a shorter one with another escape behind it. So it should
stay as it stands. But it takes the numbers, and from the escape its backslash. -/
theorem unescape_misreads :
    (Decodes FourDigits "\\u+041".toList "\\u+041".toList ∧
        unescape "\\u+041".toList = "A".toList) ∧
      (Decodes FourDigits "\\u41".toList "\\u41".toList ∧
        unescape "\\u41".toList = "A".toList) ∧
      (Decodes FourDigits "\\u004\\n".toList "\\u004\n".toList ∧
        unescape "\\u004\\n".toList = "\\u004\\n".toList) ∧
      ¬ ∀ text, Decodes FourDigits text (unescape text) := by
  have plain {front : List Char} (unmarked : '\\' ∉ front) : Decodes FourDigits front front := by
    have ended : Decodes FourDigits (front ++ []) (front ++ []) := .plain_append unmarked .nil
    rwa [List.append_nil] at ended
  have signed : Decodes FourDigits ('\\' :: 'u' :: "+041".toList) ('\\' :: 'u' :: "+041".toList) :=
    .kept (not_isCodePoint (.inr rfl)) (plain (by decide))
  have short : Decodes FourDigits ('\\' :: 'u' :: "41".toList) ('\\' :: 'u' :: "41".toList) :=
    .kept (not_isCodePoint (.inl (by decide))) (plain (by decide))
  have interrupted :
      Decodes FourDigits ('\\' :: 'u' :: "004\\n".toList) ('\\' :: 'u' :: "004\n".toList) := by
    have feed : Decodes FourDigits "\\n".toList "\n".toList := .letter (by decide) .nil
    have digits : Decodes FourDigits "004\\n".toList "004\n".toList :=
      Decodes.plain_append (show '\\' ∉ "004".toList by decide) feed
    exact .kept (not_isCodePoint (.inr rfl)) digits
  have value : unescape "\\u+041".toList = "A".toList := by decide +kernel
  refine ⟨⟨signed, value⟩, ⟨short, by decide +kernel⟩, ⟨interrupted, by decide +kernel⟩,
    fun all => ?_⟩
  have both := (all "\\u+041".toList).unique readsOnce_fourDigits signed
  rw [value] at both
  cases both

end ServiceIdl.Text
