import ServiceIdl.Proofs.Syntax.Makes
import ServiceIdl.Proofs.Syntax.Reads
import ServiceIdl.Shape.Value

/-!
# What a written text denotes

`Denotes e read offset written rest results` joins the two halves of reading back: the
expression `e` reads `written` here, and whatever tree comes of it, the reader `read`
takes `results` off its nodes. A word denotes what its reader makes of its text, a rule
what its reader makes of what is inside, and repetitions and brackets put the results in
a row. A written text is followed along its own structure, and no tree has to be built.
-/

namespace ServiceIdl

open Peg (Expr Gap Mode Derives Fails)
open Text (byteLength Follows)

variable {c d : Category} {β γ : Type}

/-- Nodes of one category, off which the results are read. -/
structure Forest.Means (text : List Char) (nodes : Forest) (read : View c → Except Defect β)
    (results : List β) : Prop where
  only : ∀ kind ∈ nodes.kinds, kind ∈ c.kinds
  reads : nodes.Reads text read results

namespace Forest.Means

variable {text : List Char} {read : View c → Except Defect β} {results more : List β}
  {front behind nodes : Forest}

theorem nil : Forest.nil.Means text read [] := by
  refine ⟨by simp [kinds], .absent ?_⟩
  simp [kinds]

/-- Nodes that stand behind one another are read one after the other. -/
theorem append (first : front.Means text read results) (second : behind.Means text read more) :
    (front.append behind).Means text read (results ++ more) := by
  refine ⟨?_, first.reads.append second.reads⟩
  intro kind member
  rw [kinds_append, List.mem_append] at member
  rcases member with here | there
  · exact first.only kind here
  · exact second.only kind there

/-- A node of the category is read as what its reader makes of it. -/
theorem single {kind : Kind} {start stop : Nat} {inside : Forest} {result : β}
    (accepted : kind ∈ c.kinds)
    (each : ∀ v : View c, v.tree.Shows text kind start stop inside → read v = .ok result) :
    (Forest.cons kind start stop inside .nil).Means text read [result] := by
  refine ⟨?_, .single accepted each⟩
  intro other member
  rw [List.mem_singleton.mp member]
  exact accepted

/-- Nodes of one category are not read by a reader of another. -/
theorem absent {other : View d → Except Defect γ} (means : nodes.Means text read results)
    (apart : ∀ kind ∈ c.kinds, kind ∉ d.kinds) : nodes.Reads text other [] :=
  .absent fun kind member => apart kind (means.only kind member)

end Forest.Means

/-- Whether the rule makes a node of the category, with trivia between its items. -/
def Category.isSpaced (c : Category) (name : Rule) : Bool :=
  name.isVisible .loose && name.modifier.inner .loose == .loose && c.kinds.contains (.ofRule name)

/-- A rule that is spaced makes a node of the category, with trivia between its items. -/
theorem Category.isSpaced_iff {name : Rule} :
    c.isSpaced name = true ↔ name.isVisible .loose = true ∧
      name.modifier.inner .loose = .loose ∧ Kind.ofRule name ∈ c.kinds := by
  rw [isSpaced, Bool.and_eq_true, Bool.and_eq_true, beq_iff_eq, List.contains_iff_mem, and_assoc]

/-- Behind `offset` bytes the expression reads `written` in front of `rest`, and the
results are read off the nodes that this makes. -/
def Denotes (e : Expr Rule) (read : View c → Except Defect β) (offset : Nat)
    (written rest : List Char) (results : List β) : Prop :=
  ∃ nodes, Makes .loose e offset written rest nodes ∧
    ∀ text, Follows text offset (written ++ rest) → nodes.Means text read results

namespace Denotes

variable {e first second : Expr Rule} {name : Rule} {read : View c → Except Defect β}
  {inner : View d → Except Defect γ} {offset : Nat} {written a b between rest : List Char}
  {results more : List β} {result : β} {parts : List γ}

/-! ## Alternatives and repetitions -/

theorem left (denotes : Denotes first read offset written rest results) :
    Denotes (.choice first second) read offset written rest results := by
  rcases denotes with ⟨nodes, makes, means⟩
  exact ⟨nodes, makes.left, means⟩

/-- The second alternative, if the first fails here. -/
theorem right (fails : Fails documentGrammar .loose first offset (written ++ rest))
    (denotes : Denotes second read offset written rest results) :
    Denotes (.choice first second) read offset written rest results := by
  rcases denotes with ⟨nodes, makes, means⟩
  exact ⟨nodes, .right fails makes, means⟩

/-- What makes no nodes denotes nothing. -/
theorem nothing (makes : Makes .loose e offset written rest .nil) :
    Denotes e read offset written rest [] :=
  ⟨.nil, makes, fun _ _ => .nil⟩

theorem stop (fails : Fails documentGrammar .loose e offset rest) :
    Denotes (.star e) read offset [] rest [] :=
  nothing (.stop fails)

/-- Items that follow each other at once denote their results in a row. -/
theorem tight (front : Denotes first read offset a (b ++ rest) results)
    (behind : Denotes second read (offset + byteLength a) b rest more) :
    Denotes (.seq .tight first second) read offset (a ++ b) rest (results ++ more) := by
  rcases front with ⟨ms, makes, means⟩
  rcases behind with ⟨ns, makes', means'⟩
  refine ⟨_, makes.tight (by simp) makes', ?_⟩
  intro text follows
  rw [List.append_assoc] at follows
  exact (means text follows).append (means' text follows.skip)

theorem round (front : Denotes e read offset a (b ++ rest) results)
    (behind : Denotes (.star e) read (offset + byteLength a) b rest more) :
    Denotes (.star e) read offset (a ++ b) rest (results ++ more) := by
  rcases front with ⟨ms, makes, means⟩
  rcases behind with ⟨ns, makes', means'⟩
  refine ⟨_, makes.round makes', ?_⟩
  intro text follows
  rw [List.append_assoc] at follows
  exact (means text follows).append (means' text follows.skip)

/-- A round of a repetition behind the first, with trivia before it. -/
theorem behindTrivia (skips : Skips offset between (written ++ rest))
    (denotes : Denotes e read (offset + byteLength between) written rest results) :
    Denotes (.seq .loose .empty e) read offset (between ++ written) rest results := by
  rcases denotes with ⟨nodes, makes, means⟩
  refine ⟨nodes, Makes.loose .empty skips makes, ?_⟩
  intro text follows
  rw [List.append_assoc] at follows
  exact means text follows.skip

/-- At least one round. -/
theorem many (front : Denotes e read offset a (b ++ rest) results)
    (behind : Denotes (.star (.seq .loose .empty e)) read (offset + byteLength a) b rest more) :
    Denotes (.many .loose e) read offset (a ++ b) rest (results ++ more) :=
  left (front.tight behind)

theorem noRounds (fails : Fails documentGrammar .loose e offset rest) :
    Denotes (.many .loose e) read offset [] rest [] :=
  right (.inFirst fails) (nothing .empty)

/-! ## Rules -/

/-- A rule denotes what its reader makes of what the body denotes. -/
theorem node (spaced : c.isSpaced name = true)
    (body : Denotes name.body inner offset written rest parts)
    (each : ∀ v : View c, v.tree.kind = .ofRule name → (v.many d).mapM inner = .ok parts →
      read v = .ok result) :
    Denotes (.rule name) read offset written rest [result] := by
  rcases body with ⟨nodes, makes, means⟩
  obtain ⟨visible, kept, accepted⟩ := Category.isSpaced_iff.mp spaced
  rw [← kept] at makes
  refine ⟨_, .node visible makes, ?_⟩
  intro text follows
  refine .single accepted fun v shown => ?_
  exact each v shown.kind (shown.mapM_many (means text follows).reads)

/-- A rule without nodes inside denotes what its reader makes of its text. -/
theorem leaf (visible : name.isVisible .loose = true) (accepted : Kind.ofRule name ∈ c.kinds)
    (body : Makes (name.modifier.inner .loose) name.body offset written rest .nil)
    (each : ∀ v : View c, v.tree.kind = .ofRule name → v.text.toList = written →
      read v = .ok result) :
    Denotes (.rule name) read offset written rest [result] := by
  refine ⟨_, .node visible body, ?_⟩
  intro text follows
  refine .single accepted fun v shown => ?_
  exact each v shown.kind (shown.text_eq follows.holds)

/-- A word denotes what its reader makes of its text. -/
theorem word (atomic : name.modifier = .atomic) (visible : name.isVisible .loose = true)
    (accepted : Kind.ofRule name ∈ c.kinds)
    (body : Derives documentGrammar .atomic name.body offset written rest [])
    (each : ∀ v : View c, v.tree.kind = .ofRule name → v.text.toList = written →
      read v = .ok result) :
    Denotes (.rule name) read offset written rest [result] := by
  refine leaf visible accepted ?_ each
  rw [atomic]
  exact .silent body

/-! ## Brackets -/

/-- Rounds between brackets, with trivia behind the one and before the other. -/
theorem bracketed {opening closing : List Char} {lead tail : List Char}
    (leads : Skips (offset + byteLength opening) lead (written ++ (tail ++ (closing ++ rest))))
    (rounds : Denotes (.many .loose e) read (offset + byteLength opening + byteLength lead) written
      (tail ++ (closing ++ rest)) results)
    (trails : Skips (offset + byteLength opening + byteLength lead + byteLength written) tail
      (closing ++ rest)) :
    Denotes (Rule.inOrder [.literal opening, Rule.many e, .literal closing]) read offset
      (opening ++ (lead ++ (written ++ (tail ++ closing)))) rest results := by
  rcases rounds with ⟨nodes, makes, means⟩
  have behind := makes.loose trails .literal
  have leads' : Skips (offset + byteLength opening) lead
      (written ++ (tail ++ closing) ++ rest) := by
    simpa only [List.append_assoc] using leads
  have opened : Makes .loose (.literal opening) offset opening
      (lead ++ (written ++ (tail ++ closing) ++ rest)) .nil := .literal
  have whole := opened.loose leads' behind
  rw [Forest.append, Forest.append_nil] at whole
  refine ⟨nodes, whole, ?_⟩
  intro text follows
  simp only [List.append_assoc] at follows
  exact means text follows.skip.skip

end Denotes

/-! ## Keys and values -/

/-- Behind `offset` bytes stand a key, a mark and a value. -/
def DenotesPair (e : Expr Rule) (offset : Nat) (written rest : List Char) (key : String)
    (value : Value) : Prop :=
  ∃ nodes, Makes .loose e offset written rest nodes ∧
    ∀ text, Follows text offset (written ++ rest) →
      nodes.Reads text NodeObjectKey.name [key] ∧ nodes.Reads text Value.ofNode [value]

/-- A key, a mark and a value denote a pair, with trivia around the mark. -/
theorem Denotes.pair {offset : Nat} {written between mark space assigned rest : List Char}
    {key : String} {value : Value}
    (keyed : Denotes (.rule .nodeObjectKey) NodeObjectKey.name offset written
      (between ++ (mark ++ (space ++ (assigned ++ rest)))) [key])
    (skips : Skips (offset + byteLength written) between (mark ++ (space ++ (assigned ++ rest))))
    (skips' : Skips (offset + byteLength written + byteLength between + byteLength mark) space
      (assigned ++ rest))
    (valued : Denotes (.rule .nodeValue) Value.ofNode
      (offset + byteLength written + byteLength between + byteLength mark + byteLength space)
      assigned rest [value]) :
    DenotesPair (Rule.inOrder [.rule .nodeObjectKey, .literal mark, .rule .nodeValue]) offset
      (written ++ (between ++ (mark ++ (space ++ assigned)))) rest key value := by
  rcases keyed with ⟨ms, makes, means⟩
  rcases valued with ⟨ns, makes', means'⟩
  have marked := Makes.loose .literal skips' makes'
  have flat : mark ++ (space ++ (assigned ++ rest)) = mark ++ (space ++ assigned) ++ rest := by
    simp only [List.append_assoc]
  rw [flat] at makes skips
  refine ⟨_, makes.loose skips marked, ?_⟩
  intro text follows
  simp only [List.append_assoc] at follows means
  have key := means text follows
  have value := means' text follows.skip.skip.skip.skip
  constructor
  · exact key.reads.append (value.absent (by decide))
  · exact (key.absent (by decide)).append value.reads

/-- A key and a value behind a word that makes no nodes. -/
theorem DenotesPair.behindWord {first second : Expr Rule} {offset : Nat}
    {word between written rest : List Char} {key : String} {value : Value}
    (makes : Makes .loose first offset word (between ++ (written ++ rest)) .nil)
    (skips : Skips (offset + byteLength word) between (written ++ rest))
    (pair : DenotesPair second (offset + byteLength word + byteLength between) written rest key
      value) :
    DenotesPair (.seq .loose first second) offset (word ++ (between ++ written)) rest
      key value := by
  rcases pair with ⟨nodes, makes', means⟩
  refine ⟨nodes, makes.loose skips makes', ?_⟩
  intro text follows
  simp only [List.append_assoc] at follows
  exact means text follows.skip.skip

/-- A rule denotes what its reader makes of the key and the value inside it. -/
theorem Denotes.ofPair {name : Rule} {read : View c → Except Defect β} {offset : Nat}
    {written rest : List Char} {key : String} {value : Value} {result : β}
    (spaced : c.isSpaced name = true)
    (body : DenotesPair name.body offset written rest key value)
    (each : ∀ (v : View c) (keyNode : NodeObjectKey) (valueNode : NodeValue),
      v.required .nodeObjectKey = .ok keyNode → NodeObjectKey.name keyNode = .ok key →
      v.required .nodeValue = .ok valueNode → Value.ofNode valueNode = .ok value →
      read v = .ok result) :
    Denotes (.rule name) read offset written rest [result] := by
  rcases body with ⟨nodes, makes, means⟩
  obtain ⟨visible, kept, accepted⟩ := Category.isSpaced_iff.mp spaced
  rw [← kept] at makes
  refine ⟨_, .node visible makes, ?_⟩
  intro text follows
  refine .single accepted fun v shown => ?_
  obtain ⟨keyed, valued⟩ := means text follows
  obtain ⟨keyNode, keyFound, keyRead⟩ := View.exists_required_of_mapM (shown.mapM_many keyed)
  obtain ⟨valueNode, valueFound, valueRead⟩ :=
    View.exists_required_of_mapM (shown.mapM_many valued)
  exact each v keyNode valueNode keyFound keyRead valueFound valueRead

end ServiceIdl
