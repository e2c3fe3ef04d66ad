import ServiceIdl.Proofs.Model.Binding
import ServiceIdl.Proofs.Resolve.Objects
import ServiceIdl.Proofs.Resolve.Restrictions
import ServiceIdl.Proofs.Shape.Origin

/-!
# What number literals come to

A number literal is an integer exactly if it has neither a fraction nor an exponent, and it is
kept as that integer exactly if 64 signed bits hold it (`NodeValue.IsNumber.exists_numeric`).
Where a document asks for an integer, namely for the bounds of lengths and of values, for success
codes and for the values of enumerations, a literal counts if it is an integer of the range that is
asked for; any other one counts as if it were not there, or makes the binding void. So no literal
is an error, and none is cut to a size (`documentTree_readsNumbers`).
-/

namespace ServiceIdl

open Outcome (bind_eq_ok_iff)

variable {text literal : List Char} {node : NodeValue} {application : TraitApplication} {t : Trait}
  {key : String}

/-! ## Literals -/

/-- The node is a number with this literal. -/
def NodeValue.IsNumber (node : NodeValue) (literal : List Char) : Prop :=
  ∃ content number,
    NodeValue.content node = .ok content ∧ NodeValueKind.form content = .number number ∧
    number.text.toList = literal

/-- The number of a literal is an integer exactly if the literal is one and it fits. -/
def Numeric.IsOf (number : Numeric) (literal : List Char) : Prop :=
  ∀ n, number = .integer n ↔ Decimal.IsInteger literal n ∧ Decimal.IsSigned64 n

/-- A node that is a number literal is read as the number that the literal is. -/
theorem NodeValue.IsNumber.exists_numeric (part : node.tree.IsPart text)
    (is : NodeValue.IsNumber node literal) :
    ∃ number, Value.ofNode node = .ok (.number number) ∧ number.IsOf literal := by
  obtain ⟨content, word, readContent, form, rfl⟩ := is
  have partWord : word.tree.IsPart text := by
    have partContent := View.isPart_of_required part readContent
    rwa [← NodeValueKind.tree_form, form] at partContent
  obtain ⟨_, spelled⟩ := View.exists_form partWord .number rfl
  have isLiteral := spelled.number rfl
  obtain ⟨number, known⟩ := Numeric.exists_ofText? isLiteral
  refine ⟨number, ?_, ?_⟩
  · rw [Value.ofNode_eq, readContent]
    simp only [form, Numeric.ofNode, known]
    rfl
  · intro n
    rw [← Numeric.ofText?_eq_integer_iff isLiteral, known, Option.some.injEq]

/-- A natural number has 64 signed bits below the sign bit. -/
theorem Decimal.isSigned64_natCast {n : Nat} : IsSigned64 n ↔ n < 2 ^ 63 := by
  unfold IsSigned64 minSigned64 maxSigned64
  omega

/-! ## Bodies of traits -/

/-- The value of the last entry is part of the text. -/
theorem NodeObjectKvp.isPart_of_last {written : List NodeObjectKvp}
    (parts : ∀ entry ∈ written, entry.tree.IsPart text)
    (last : First (NodeObjectKvp.Binds key) written.reverse node) : node.tree.IsPart text := by
  obtain ⟨entry, member, -, -, -, readNode⟩ := last.exists_mem
  exact View.isPart_of_required (parts entry (List.mem_reverse.mp member)) readNode

/-- In the parentheses behind the trait, the last entry with the key has this node. -/
def TraitApplication.AssignsEntry (application : TraitApplication) (key : String)
    (node : NodeValue) : Prop :=
  ∃ body structure_,
    TraitApplication.body application = some body ∧
    TraitBodyNode.structure? body = some structure_ ∧
    First (NodeObjectKvp.Binds key) (TraitStructure.entries structure_).reverse node

/-- In the parentheses behind the trait there is an object, and its last entry with the key has
this node. -/
def TraitApplication.AssignsInObject (application : TraitApplication) (key : String)
    (node : NodeValue) : Prop :=
  ∃ body value content object,
    TraitApplication.body application = some body ∧ TraitBodyNode.structure? body = none ∧
    TraitBodyNode.value? body = some value ∧ NodeValue.content value = .ok content ∧
    NodeValueKind.form content = .object object ∧ NodeObject.HasLast object key node

/-- The last entry with the key has this node, in either form of a body. -/
def TraitApplication.Assigns (application : TraitApplication) (key : String)
    (node : NodeValue) : Prop :=
  application.AssignsEntry key node ∨ application.AssignsInObject key node

theorem TraitApplication.Assigns.isPart (part : application.tree.IsPart text)
    (assigns : application.Assigns key node) : node.tree.IsPart text := by
  rcases assigns with ⟨body, structure_, given, form, last⟩ |
    ⟨body, value, content, object, given, -, single, readContent, form, last⟩
  · have partBody := View.isPart_of_optional part given
    have partEntries := View.isPart_of_optional partBody form
    exact NodeObjectKvp.isPart_of_last
      (fun _ member => View.isPart_of_mem_many partEntries member) last
  · have partBody := View.isPart_of_optional part given
    have partValue := View.isPart_of_optional partBody single
    have partContent := View.isPart_of_required partValue readContent
    rw [← NodeValueKind.tree_form, form] at partContent
    exact NodeObjectKvp.isPart_of_last
      (fun _ member => View.isPart_of_mem_many partContent member) last

namespace Trait

/-- An application with entries of its own means them. -/
theorem exists_entries_of_ofNode {body : TraitBodyNode} {structure_ : TraitStructure}
    (read : Trait.ofNode application = .ok t)
    (given : TraitApplication.body application = some body)
    (form : TraitBodyNode.structure? body = some structure_) :
    ∃ entries, t.body = some (.entries entries) ∧
      List.Forall₂ NodeObjectKvp.Means (TraitStructure.entries structure_) entries := by
  obtain ⟨written, -, read⟩ := bind_eq_ok_iff.mp read
  simp only [given, form] at read
  obtain ⟨entries, means, read⟩ := bind_eq_ok_iff.mp read
  cases read
  exact ⟨entries, rfl, Value.mapM_entryOfNode_eq_ok_iff.mp means⟩

/-- An application with an object means its entries. -/
theorem exists_object_of_ofNode {body : TraitBodyNode} {value : NodeValue}
    {content : NodeValueKind} {object : NodeObject} (read : Trait.ofNode application = .ok t)
    (given : TraitApplication.body application = some body)
    (bare : TraitBodyNode.structure? body = none)
    (single : TraitBodyNode.value? body = some value)
    (readContent : NodeValue.content value = .ok content)
    (form : NodeValueKind.form content = .object object) :
    ∃ entries, t.body = some (.value (.object entries)) ∧
      List.Forall₂ NodeObjectKvp.Means (NodeObject.entries object) entries := by
  obtain ⟨written, -, read⟩ := bind_eq_ok_iff.mp read
  simp only [given, bare, single] at read
  obtain ⟨verbatim, -, read⟩ := bind_eq_ok_iff.mp read
  obtain ⟨lowered, readValue, read⟩ := bind_eq_ok_iff.mp read
  cases read
  rw [Value.ofNode_eq, readContent] at readValue
  simp only [form] at readValue
  obtain ⟨entries, means, final⟩ := bind_eq_ok_iff.mp readValue
  cases final
  exact ⟨entries, rfl, Value.mapM_entryOfNode_eq_ok_iff.mp means⟩

/-- A node that is assigned to a key has the value that the body of the trait has for it. -/
theorem exists_field?_of_assigns (read : Trait.ofNode application = .ok t)
    (assigns : application.Assigns key node) :
    ∃ value, Value.ofNode node = .ok value ∧ t.field? key = some value := by
  have found {body : TraitBody} {entries : List (String × Value)} {written : List NodeObjectKvp}
      (same : t.body = some body) (given : body.entries? = some entries)
      (listed : List.Forall₂ NodeObjectKvp.Means written entries)
      (last : First (NodeObjectKvp.Binds key) written.reverse node) :
      ∃ value, Value.ofNode node = .ok value ∧ t.field? key = some value := by
    obtain ⟨value, readNode, isLast⟩ := NodeObjectKvp.exists_value_of_last listed last
    refine ⟨value, readNode, ?_⟩
    rw [Trait.field?, same, Option.bind_some]
    exact (TraitBody.field?_eq_some_iff_hasLastEntry given).mpr isLast
  rcases assigns with ⟨body, structure_, given, form, last⟩ |
    ⟨body, value, content, object, given, bare, single, readContent, form, last⟩
  · obtain ⟨entries, same, listed⟩ := exists_entries_of_ofNode read given form
    exact found same rfl listed last
  · obtain ⟨entries, same, listed⟩ :=
      exists_object_of_ofNode read given bare single readContent form
    exact found same rfl listed last

/-- A number literal is a bound exactly if it is an integer that fits, and then it is this one. -/
theorem hasBound_iff (part : application.tree.IsPart text)
    (read : Trait.ofNode application = .ok t) (assigns : application.Assigns key node)
    (is : NodeValue.IsNumber node literal) {n : Int} :
    t.HasBound key n ↔ Decimal.IsInteger literal n ∧ Decimal.IsSigned64 n := by
  obtain ⟨value, readNode, found⟩ := exists_field?_of_assigns read assigns
  obtain ⟨number, readNumber, isOf⟩ := is.exists_numeric (assigns.isPart part)
  cases readNode.symm.trans readNumber
  rw [← isOf, ← bound?_eq_some_iff, bound?, found, Option.bind_some, Value.number?,
    Option.bind_some]
  cases number <;> simp [Numeric.integer?]

end Trait

/-! ## What asks for an integer -/

/-- One trait stands for the constraints that are collected of it. -/
theorem Constraint.mem_ofTraits_singleton_iff {c : Constraint} :
    c ∈ Constraint.ofTraits [t] ↔ t.StandsFor c := by
  rw [(Constraint.isFirstOccurrences_ofTraits [t]).mem_iff, List.flatMap_singleton,
    Constraint.mem_ofTrait_iff]

/-- Behind the key, the trait takes the literal for a bound exactly if it is an integer in the
range of the bound. Nothing is reported about it. -/
structure Trait.TakesBound (t : Trait) (key : String) (literal : List Char) : Prop where
  minLength : t.id = "length" → key = "min" → ∀ n : Nat,
    .minLength n ∈ Constraint.ofTraits [t] ↔ Decimal.IsInteger literal n ∧ n < 2 ^ 63
  maxLength : t.id = "length" → key = "max" → ∀ n : Nat,
    .maxLength n ∈ Constraint.ofTraits [t] ↔ Decimal.IsInteger literal n ∧ n < 2 ^ 63
  atLeast : t.id = "range" → key = "min" → ∀ n,
    .atLeast n ∈ Constraint.ofTraits [t] ↔ Decimal.IsInteger literal n ∧ Decimal.IsSigned64 n
  atMost : t.id = "range" → key = "max" → ∀ n,
    .atMost n ∈ Constraint.ofTraits [t] ↔ Decimal.IsInteger literal n ∧ Decimal.IsSigned64 n
  quiet : t.id = "length" ∨ t.id = "range" → Constraint.reports [t] = []

/-- A bound is taken exactly when the literal is an integer of 64 signed bits. -/
theorem Trait.takesBound (part : application.tree.IsPart text)
    (read : Trait.ofNode application = .ok t) (assigns : application.Assigns key node)
    (is : NodeValue.IsNumber node literal) : t.TakesBound key literal := by
  have bound {n : Int} := hasBound_iff (n := n) part read assigns is
  -- A trait stands for each of these constraints by one rule only, through its bound.
  refine ⟨?_, ?_, ?_, ?_, ?_⟩
  · rintro id rfl n
    rw [Constraint.mem_ofTraits_singleton_iff, ← Decimal.isSigned64_natCast, ← bound]
    refine ⟨?_, .minLength id⟩
    rintro ⟨⟩
    assumption
  · rintro id rfl n
    rw [Constraint.mem_ofTraits_singleton_iff, ← Decimal.isSigned64_natCast, ← bound]
    refine ⟨?_, .maxLength id⟩
    rintro ⟨⟩
    assumption
  · rintro id rfl n
    rw [Constraint.mem_ofTraits_singleton_iff, ← bound]
    refine ⟨?_, .atLeast id⟩
    rintro ⟨⟩
    assumption
  · rintro id rfl n
    rw [Constraint.mem_ofTraits_singleton_iff, ← bound]
    refine ⟨?_, .atMost id⟩
    rintro ⟨⟩
    assumption
  · rintro (id | id)
    · simp [Constraint.reports, Constraint.report?, Constraint.ofTrait?, id]
    · simp [Constraint.reports, Constraint.report?, Constraint.ofTrait?, id]

/-- A binding with a literal as its code is one exactly if the literal is an integer of 16 bits
without a sign, and then its code is this one. -/
theorem HttpBinding.ofTraits?_eq_some_iff_of_number (part : application.tree.IsPart text)
    (read : Trait.ofNode application = .ok t) (id : t.id = "http")
    {methodNode uriNode : NodeValue} {method uri : String}
    (assignsMethod : application.AssignsEntry "method" methodNode)
    (readMethod : Value.ofNode methodNode = .ok (.string method))
    (assignsUri : application.AssignsEntry "uri" uriNode)
    (readUri : Value.ofNode uriNode = .ok (.string uri))
    (assigns : application.AssignsEntry "code" node) (is : NodeValue.IsNumber node literal)
    {binding : HttpBinding} :
    HttpBinding.ofTraits? [t] = some binding ↔
      ∃ n : Nat, Decimal.IsInteger literal n ∧ n < 65536 ∧
        binding = { method, uri, code := some n, span := application.span } := by
  obtain ⟨number, readNumber, isOf⟩ :=
    is.exists_numeric (TraitApplication.Assigns.isPart part (.inl assigns))
  have field {key : String} {node : NodeValue} {value : Value}
      (assigns : application.AssignsEntry key node) (readNode : Value.ofNode node = .ok value) :
      t.field? key = some value := by
    obtain ⟨value', readNode', found⟩ := Trait.exists_field?_of_assigns read (.inl assigns)
    cases readNode.symm.trans readNode'
    exact found
  have code (n : Nat) : code? (.number number) = some n ↔
      Decimal.IsInteger literal n ∧ n < 65536 := by
    rw [code?_eq_some_iff, Value.number.injEq, isOf, Decimal.isSigned64_natCast]
    constructor
    · rintro ⟨⟨integer, -⟩, small⟩
      exact ⟨integer, small⟩
    · rintro ⟨integer, small⟩
      exact ⟨⟨integer, by omega⟩, small⟩
  have found := field assigns readNumber
  -- Only entries bind: an object in the parentheses would not do.
  obtain ⟨body, structure_, given, form, -⟩ := assigns
  obtain ⟨entries, same, -⟩ := Trait.exists_entries_of_ofNode read given form
  have last : Trait.find? [t] "http" = some t := by simp [Trait.find?, id]
  rw [ofTraits?, last, Option.bind_some, ofTrait?, same]
  simp only [field assignsMethod readMethod, field assignsUri readUri, found, Value.string?,
    Trait.span_of_ofNode read, Option.bind_some, Option.bind_eq_bind, Option.bind_map]
  rw [Option.bind_eq_some_iff]
  constructor
  · rintro ⟨n, taken, final⟩
    obtain ⟨integer, small⟩ := (code n).mp taken
    exact ⟨n, integer, small, (Option.some.inj final).symm⟩
  · rintro ⟨n, integer, small, rfl⟩
    exact ⟨n, (code n).mpr ⟨integer, small⟩, rfl⟩

/-- A member of an enumeration with a literal assigned has an integer exactly if the literal is one
that fits, and then it has this one. -/
theorem EnumValue.exists_ofMember_of_number (lines : LineIndex) {member : EnumShapeMember}
    {assignment : ValueAssignment} (part : member.tree.IsPart text)
    (given : EnumShapeMember.value member = some assignment)
    (readNode : ValueAssignment.value assignment = .ok node)
    (is : NodeValue.IsNumber node literal) :
    ∃ value, EnumValue.ofMember lines member = .ok value ∧ ∀ given, value.value = some given ↔
      ∃ n, given = .integer n ∧ Decimal.IsInteger literal n ∧ Decimal.IsSigned64 n := by
  have partNode := View.isPart_of_required (View.isPart_of_optional part given) readNode
  obtain ⟨number, readNumber, isOf⟩ := is.exists_numeric partNode
  obtain ⟨value, read, -⟩ := EnumValue.succeeds_ofMember lines part
  refine ⟨value, read, ?_⟩
  obtain ⟨statements, -, read⟩ := bind_eq_ok_iff.mp read
  obtain ⟨traits, -, read⟩ := bind_eq_ok_iff.mp read
  obtain ⟨found, readFound, read⟩ := bind_eq_ok_iff.mp read
  obtain ⟨name, -, final⟩ := bind_eq_ok_iff.mp read
  cases final
  unfold literalOf? at readFound
  rw [given] at readFound
  simp only [readNode, Outcome.ok_bind, readNumber] at readFound
  cases readFound
  intro given
  simp only [← isOf _]
  cases number <;> simp [EnumLiteral.ofValue?, eq_comm]

/-! ## Documents -/

/-- Whatever number literals a document has, they are read, and where one is asked for as an
integer, it counts as the integer that it is, or not at all. -/
structure Tree.ReadsNumbers (tree : Tree) : Prop where
  value : ∀ (node : NodeValue) literal, node.tree.Occurs tree →
    NodeValue.IsNumber node literal →
    ∃ number, Value.ofNode node = .ok (.number number) ∧ number.IsOf literal
  bound : ∀ (application : TraitApplication) key node literal, application.tree.Occurs tree →
    application.Assigns key node → NodeValue.IsNumber node literal →
    ∃ t, Trait.ofNode application = .ok t ∧ t.TakesBound key literal
  /-- A binding of HTTP that is otherwise complete is one exactly if its code is in range. -/
  code : ∀ (application : TraitApplication) methodNode uriNode node method uri literal,
    application.tree.Occurs tree →
    application.AssignsEntry "method" methodNode → Value.ofNode methodNode = .ok (.string method) →
    application.AssignsEntry "uri" uriNode → Value.ofNode uriNode = .ok (.string uri) →
    application.AssignsEntry "code" node → NodeValue.IsNumber node literal →
    ∃ t, Trait.ofNode application = .ok t ∧ (t.id = "http" →
      ∀ binding, HttpBinding.ofTraits? [t] = some binding ↔
        ∃ n : Nat, Decimal.IsInteger literal n ∧ n < 65536 ∧
          binding = { method, uri, code := some n, span := application.span })
  enumValue : ∀ (member : EnumShapeMember) assignment node literal lines,
    member.tree.Occurs tree → EnumShapeMember.value member = some assignment →
    ValueAssignment.value assignment = .ok node → NodeValue.IsNumber node literal →
    ∃ value, EnumValue.ofMember lines member = .ok value ∧ ∀ given, value.value = some given ↔
      ∃ n, given = .integer n ∧ Decimal.IsInteger literal n ∧ Decimal.IsSigned64 n

/-- In the tree of a document every literal is read as the number that it writes. -/
theorem Tree.IsDocument.readsNumbers {tree : Tree} (document : tree.IsDocument text) :
    tree.ReadsNumbers where
  value node literal occurs is := is.exists_numeric (document.isPart.of_occurs occurs)
  bound application key node literal occurs assigns is := by
    have part := document.isPart.of_occurs occurs
    obtain ⟨t, read, -⟩ := Trait.succeeds_ofNode part
    exact ⟨t, read, Trait.takesBound part read assigns is⟩
  code application methodNode uriNode node method uri literal occurs assignsMethod readMethod
      assignsUri readUri assigns is := by
    have part := document.isPart.of_occurs occurs
    obtain ⟨t, read, -⟩ := Trait.succeeds_ofNode part
    refine ⟨t, read, fun id binding => ?_⟩
    exact HttpBinding.ofTraits?_eq_some_iff_of_number part read id assignsMethod readMethod
      assignsUri readUri assigns is
  enumValue member assignment node literal lines occurs given readNode is :=
    EnumValue.exists_ofMember_of_number lines (document.isPart.of_occurs occurs) given readNode is

/-- An accepted text is resolved whatever its number literals are, and they come to exact integers
or to none. -/
theorem documentTree_readsNumbers {text : String} {events : List Event}
    (accepted : documentEvents text = .ok events) :
    ∃ tree, documentTree text = .ok (.ok tree) ∧ tree.ReadsNumbers ∧
      ∀ path options, ∃ resolution, resolve text path options = .ok resolution := by
  obtain ⟨tree, made, document⟩ := exists_documentTree accepted
  exact ⟨tree, made, document.readsNumbers, resolve_never_faults text⟩

/-- A bound with leading zeros, and one that 64 signed bits do not hold. -/
def boundedLength : String :=
  "namespace a\n@length(max: 9223372036854775808, min: 007)\nlist L \x7b member: String \x7d"

/-- Of the two bounds of such a document one counts, leading zeros and all. -/
theorem documentTree_readsNumbers_boundedLength :
    ∃ tree application node t, documentTree boundedLength = .ok (.ok tree) ∧
      tree.ReadsNumbers ∧ application.tree.Occurs tree ∧
      TraitApplication.Assigns application "min" node ∧
      NodeValue.IsNumber node "007".toList ∧ Trait.ofNode application = .ok t ∧
      t.TakesBound "min" "007".toList ∧ Constraint.ofTraits [t] = [.minLength 7] := by
  have recognised : (documentEvents boundedLength).isOk = true := by decide +kernel
  obtain ⟨events, accepted⟩ := Outcome.exists_ok_of_isOk recognised
  obtain ⟨tree, made, reads, -⟩ := documentTree_readsNumbers accepted
  have computed : ((documentTree boundedLength).toOption.bind Except.toOption).bind (fun tree =>
      ((tree.level 5).findSome? (View.of? .traitApplication)).bind
      fun application => (TraitApplication.body application).bind
      fun body => (TraitBodyNode.structure? body).bind
      fun structure_ => (TraitStructure.entries structure_).reverse.head?.bind
      fun entry => (NodeObjectKvp.key entry).toOption.bind
      fun key => (NodeObjectKvp.value entry).toOption.bind
      fun node => (NodeValue.content node).toOption.bind
      fun content => match NodeValueKind.form content with
        | .number number => some ((NodeObjectKey.name key).toOption, number.text,
          (Trait.ofNode application).toOption.map fun t => Constraint.ofTraits [t])
        | _ => none) = some (some "min", "007", some [.minLength 7]) := by decide +kernel
  rw [made] at computed
  obtain ⟨_, ⟨⟩, computed⟩ := Option.bind_eq_some_iff.mp computed
  obtain ⟨application, found, computed⟩ := Option.bind_eq_some_iff.mp computed
  obtain ⟨body, given, computed⟩ := Option.bind_eq_some_iff.mp computed
  obtain ⟨structure_, form, computed⟩ := Option.bind_eq_some_iff.mp computed
  obtain ⟨entry, last, computed⟩ := Option.bind_eq_some_iff.mp computed
  obtain ⟨key, readKey, computed⟩ := Option.bind_eq_some_iff.mp computed
  obtain ⟨node, readNode, computed⟩ := Option.bind_eq_some_iff.mp computed
  obtain ⟨content, readContent, computed⟩ := Option.bind_eq_some_iff.mp computed
  split at computed
  · rename_i number isNumber
    simp only [Option.some.injEq, Prod.mk.injEq] at computed
    obtain ⟨readName, written, constraints⟩ := computed
    obtain ⟨part, member, same⟩ := List.exists_of_findSome?_eq_some found
    have occurs : application.tree.Occurs tree := by
      rw [View.of?_eq_some_iff.mp same]
      exact Tree.occurs_of_mem_level member
    obtain ⟨others, split⟩ := List.head?_eq_some_iff.mp last
    have assigns : TraitApplication.Assigns application "min" node := by
      refine .inl ⟨body, structure_, given, form, ?_⟩
      rw [split]
      exact .here ⟨key, Outcome.eq_ok_of_toOption readKey, Outcome.eq_ok_of_toOption readName,
        Outcome.eq_ok_of_toOption readNode⟩
    have is : NodeValue.IsNumber node "007".toList :=
      ⟨content, number, Outcome.eq_ok_of_toOption readContent, isNumber, by rw [written]⟩
    obtain ⟨t, read, takes⟩ := reads.bound application "min" node _ occurs assigns is
    rw [read] at constraints
    exact ⟨tree, application, node, t, made, reads, occurs, assigns, is, read, takes,
      Option.some.inj constraints⟩
  · cases computed

end ServiceIdl
