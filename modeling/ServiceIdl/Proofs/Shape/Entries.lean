import ServiceIdl.Proofs.Lists
import ServiceIdl.Proofs.Shape.Readable
import ServiceIdl.Proofs.Text.Decoding
import ServiceIdl.Shape.Trait

/-!
# Entries and their meaning

An entry of an object or of a trait's body means a key with a value
(`NodeObjectKvp.Means`), where the key is what a word says or what is between quotes, decoded
(`NodeObjectKey.Spells`). A list of entries means as many pairs in the same order
(`Value.mapM_entryOfNode_eq_ok_iff`), and looking a key up among these finds the last one
(`TraitBody.field?_eq_some_iff_hasLastEntry`).
-/

namespace ServiceIdl

/-! ## Looking a key up -/

/-- The last entry with the key has this value. -/
def HasLastEntry (entries : List (String × Value)) (key : String) (value : Value) : Prop :=
  IsLast (fun entry => entry.1 = key) entries (key, value)

section Field

variable {body : TraitBody} {entries : List (String × Value)} {key : String} {value : Value}
  (given : body.entries? = some entries)

include given

/-- The reader of a field finds the last entry with its key. -/
theorem TraitBody.field?_eq_some_iff_hasLastEntry :
    body.field? key = some value ↔ HasLastEntry entries key value := by
  unfold TraitBody.field? HasLastEntry
  rw [given, Option.bind_some, Option.map_eq_some_iff, ← find?_reverse_eq_some_iff]
  constructor
  · rintro ⟨⟨name, found⟩, last, rfl⟩
    have same : name = key := by simpa using List.find?_some last
    subst same
    exact last
  · exact fun last => ⟨_, last, rfl⟩

theorem TraitBody.field?_eq_none_iff :
    body.field? key = none ↔ ∀ entry ∈ entries, entry.1 ≠ key := by
  unfold TraitBody.field?
  rw [given, Option.bind_some, Option.map_eq_none_iff, List.find?_eq_none]
  simp

end Field

/-- The last entry with the key has the value, in a body of entries or of one object. -/
def TraitBody.HasLast (body : TraitBody) (key : String) (value : Value) : Prop :=
  ∃ front behind,
    (body = .entries (front ++ (key, value) :: behind) ∨
      body = .value (.object (front ++ (key, value) :: behind))) ∧
    ∀ entry ∈ behind, entry.1 ≠ key

/-- Entries are written in the application itself or as an object in it. -/
theorem TraitBody.entries?_eq_some_iff {body : TraitBody} {entries : List (String × Value)} :
    body.entries? = some entries ↔ body = .entries entries ∨ body = .value (.object entries) := by
  cases body with
  | entries pairs => simp [TraitBody.entries?]
  | value v => cases v <;> simp [TraitBody.entries?, Value.entries?]

theorem TraitBody.field?_eq_some_iff {body : TraitBody} {key : String} {value : Value} :
    body.field? key = some value ↔ body.HasLast key value := by
  constructor
  · intro found
    obtain ⟨entries, given, -⟩ := Option.bind_eq_some_iff.mp found
    obtain ⟨front, behind, rfl, -, others⟩ :=
      (field?_eq_some_iff_hasLastEntry given).mp found
    exact ⟨front, behind, TraitBody.entries?_eq_some_iff.mp given, others⟩
  · rintro ⟨front, behind, given, others⟩
    exact (field?_eq_some_iff_hasLastEntry (TraitBody.entries?_eq_some_iff.mpr given)).mpr
      ⟨front, behind, rfl, rfl, others⟩

/-! ## What entries mean -/

/-- The value of a quoted text is what its inside decodes to. -/
theorem QuotedText.value_eq_ok_iff {quoted : QuotedText} {value : String} :
    QuotedText.value quoted = .ok value ↔
      ∃ inner, quoted.text.toList = ['"'] ++ (inner ++ ['"']) ∧
        Text.Decodes Text.NextFour inner value.toList := by
  unfold QuotedText.value QuotedText.raw
  constructor
  · intro read
    obtain ⟨raw, between, read⟩ := Outcome.bind_eq_ok_iff.mp read
    cases read
    split at between
    · rename_i inner found
      cases between
      rw [String.toList_ofList, String.toList_ofList]
      exact ⟨inner, between?_eq_some_iff.mp found, Text.decodes_unescape inner⟩
    · cases between
  · rintro ⟨inner, written, decoded⟩
    have same := decoded.unique Text.readsOnce_nextFour (Text.decodes_unescape inner)
    rw [between?_eq_some_iff.mpr written]
    change Except.ok (String.ofList (Text.unescape (String.ofList inner).toList)) = _
    rw [String.toList_ofList, ← same, String.ofList_toList]

/-- What a key says: a bare word says itself, and a text in quotes what it is decoded as. -/
inductive NodeObjectKey.Spells (key : NodeObjectKey) (name : String) : Prop
  | bare {word : Identifier} :
    key.optional .quotedText = none → key.optional .identifier = some word →
    word.text = name → Spells key name
  | quoted {quoted : QuotedText} {inner : List Char} :
    key.optional .quotedText = some quoted →
    quoted.text.toList = ['"'] ++ (inner ++ ['"']) →
    Text.Decodes Text.NextFour inner name.toList → Spells key name

/-- The name of a key is its text, decoded if it is quoted. -/
theorem NodeObjectKey.name_eq_ok_iff {key : NodeObjectKey} {name : String} :
    NodeObjectKey.name key = .ok name ↔ NodeObjectKey.Spells key name := by
  unfold NodeObjectKey.name
  constructor
  · intro read
    split at read
    · rename_i quoted found
      obtain ⟨inner, written, decoded⟩ := QuotedText.value_eq_ok_iff.mp read
      exact .quoted found written decoded
    · rename_i absent
      obtain ⟨word, found, same⟩ := Outcome.map_eq_ok_iff.mp read
      exact .bare absent (View.required_eq_ok_iff.mp found) same
  · intro spells
    cases spells with
    | bare absent found same =>
      rw [absent]
      exact Outcome.map_eq_ok_iff.mpr ⟨_, View.required_eq_ok_iff.mpr found, same⟩
    | quoted found written decoded =>
      rw [found]
      exact QuotedText.value_eq_ok_iff.mpr ⟨_, written, decoded⟩

/-- The entry means the key that it spells and the value of the node behind it. -/
def NodeObjectKvp.Means (entry : NodeObjectKvp) (pair : String × Value) : Prop :=
  ∃ key node,
    NodeObjectKvp.key entry = .ok key ∧ NodeObjectKey.Spells key pair.1 ∧
    NodeObjectKvp.value entry = .ok node ∧ Value.ofNode node = .ok pair.2

namespace Value

/-- An entry is the value that is meant under the name that is spelled. -/
theorem entryOfNode_eq_ok_iff {entry : NodeObjectKvp} {pair : String × Value} :
    entryOfNode entry = .ok pair ↔ NodeObjectKvp.Means entry pair := by
  unfold entryOfNode NodeObjectKvp.Means
  constructor
  · intro read
    obtain ⟨key, readKey, read⟩ := Outcome.bind_eq_ok_iff.mp read
    obtain ⟨name, readName, read⟩ := Outcome.bind_eq_ok_iff.mp read
    obtain ⟨node, readNode, read⟩ := Outcome.bind_eq_ok_iff.mp read
    obtain ⟨value, readValue, final⟩ := Outcome.bind_eq_ok_iff.mp read
    cases final
    exact ⟨key, node, readKey, NodeObjectKey.name_eq_ok_iff.mp readName, readNode, readValue⟩
  · rintro ⟨key, node, readKey, spells, readNode, readValue⟩
    rw [readKey, Outcome.ok_bind, NodeObjectKey.name_eq_ok_iff.mpr spells, Outcome.ok_bind,
      readNode, Outcome.ok_bind, readValue]
    rfl

/-- Entries mean as many pairs, in the same order. -/
theorem mapM_entryOfNode_eq_ok_iff {entries : List NodeObjectKvp}
    {pairs : List (String × Value)} :
    entries.mapM entryOfNode = .ok pairs ↔ List.Forall₂ NodeObjectKvp.Means entries pairs := by
  rw [Outcome.mapM_eq_ok_iff]
  simp only [entryOfNode_eq_ok_iff]

end Value

end ServiceIdl
