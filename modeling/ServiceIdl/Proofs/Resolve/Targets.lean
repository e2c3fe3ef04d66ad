import ServiceIdl.Proofs.Resolve.Soundness
import ServiceIdl.Proofs.Syntax.Parts

/-!
# Reading what declarations say

The functions that search a document find what its declarations say: the last entry
with a key (`NodeObject.hasLast_iff`), the member that a mixin provides
(`ShapeIndex.provides_iff`), and the target of a member (`ShapeIndex.hasTarget_iff`).
What is asked of a shape comes down to the parts that are read off it
(`ShapeRecord.lists_iff`, `ShapeIndex.hasSoundMembers_iff`).
-/

namespace ServiceIdl

open Outcome (bind_eq_ok_iff)

/-! ## Entries of objects -/

namespace NodeObjectKvp

variable {entry : NodeObjectKvp} {written : NodeObjectKey} {name key : String}

theorem not_binds (readKey : NodeObjectKvp.key entry = .ok written)
    (readName : NodeObjectKey.name written = .ok name) (different : name ≠ key)
    (value : NodeValue) : ¬ Binds key entry value := by
  intro binds
  rcases binds with ⟨other, readOther, named, -⟩
  cases readKey.symm.trans readOther
  cases readName.symm.trans named
  exact different rfl

theorem binds_iff (readKey : NodeObjectKvp.key entry = .ok written)
    (readName : NodeObjectKey.name written = .ok key) {value : NodeValue}
    (readValue : NodeObjectKvp.value entry = .ok value) (other : NodeValue) :
    Binds key entry other ↔ value = other := by
  constructor
  · intro binds
    rcases binds with ⟨_, _, _, readOther⟩
    exact Except.ok.inj (readValue.symm.trans readOther)
  · intro same
    subst same
    exact ⟨written, readKey, readName, readValue⟩

end NodeObjectKvp

/-- Looking a key up finds the value of the last entry with it. -/
theorem NodeObject.hasLast_iff {object : NodeObject} {key : String} {found : Option NodeValue}
    (read : NodeObject.get? object key = .ok found) (value : NodeValue) :
    NodeObject.HasLast object key value ↔ found = some value := by
  -- The fold has found the last of the entries seen, which is the first backwards.
  let Found (seen : List NodeObjectKvp) (found : Option NodeValue) : Prop := ∀ value,
    First (NodeObjectKvp.Binds key) seen.reverse value ↔ found = some value
  have start : Found [] none := by
    intro value
    constructor
    · intro first
      cases first
    · intro same
      cases same
  refine Outcome.foldlM_induction Found ?_ start read value
  intro seen found entry next before stepped value
  obtain ⟨written, readKey, stepped⟩ := bind_eq_ok_iff.mp stepped
  obtain ⟨name, readName, stepped⟩ := bind_eq_ok_iff.mp stepped
  rw [List.reverse_append, List.reverse_singleton, List.singleton_append]
  by_cases same : name = key
  · rw [if_pos same] at stepped
    obtain ⟨own, readValue, stepped⟩ := bind_eq_ok_iff.mp stepped
    cases stepped
    rw [same] at readName
    have binds := NodeObjectKvp.binds_iff readKey readName readValue
    rw [First.cons_iff_of_holds ((binds own).mpr rfl), binds, Option.some.injEq]
  · rw [if_neg same] at stepped
    cases stepped
    have nothing := NodeObjectKvp.not_binds readKey readName same
    exact (First.cons_iff_of_forall_not nothing).trans (before value)

/-- An object without the entry `operations` lists nothing. -/
theorem NodeObject.not_lists {body : NodeObject}
    (absent : NodeObject.get? body "operations" = .ok none) (id : String) :
    ¬ NodeObject.Lists body id := by
  intro lists
  rcases lists with ⟨listing, _, _, last, -⟩
  cases (NodeObject.hasLast_iff absent listing).mp last

/-- The last entry `operations` is all that counts. -/
theorem NodeObject.lists_iff {body : NodeObject} {listing : NodeValue} {content : NodeValueKind}
    (read : NodeObject.get? body "operations" = .ok (some listing))
    (readContent : NodeValue.content listing = .ok content) (id : String) :
    NodeObject.Lists body id ↔ ∃ elements, NodeValueKind.form content = .array elements ∧
      ∃ element ∈ NodeArray.values elements, NodeValue.IsId element id := by
  constructor
  · intro lists
    rcases lists with ⟨listing', _, elements, last, readContent', form, present⟩
    cases (NodeObject.hasLast_iff read listing').mp last
    cases readContent.symm.trans readContent'
    exact ⟨elements, form, present⟩
  · intro listed
    rcases listed with ⟨elements, form, present⟩
    exact ⟨listing, content, elements, (NodeObject.hasLast_iff read listing).mpr rfl,
      readContent, form, present⟩

/-- A node is an id exactly if its value gives one. -/
theorem NodeValue.isId_iff {node : NodeValue} {value : Value} (read : Value.ofNode node = .ok value)
    (id : String) : NodeValue.IsId node id ↔ operationId? value = some id := by
  unfold IsId
  rw [read]
  cases value <;> simp [operationId?]

/-! ## Shapes -/

namespace ShapeRecord

variable {record : ShapeRecord}

/-- A simple shape is sound unless its keyword is `document`. -/
theorem isSoundSimple_iff {shape : SimpleShape} (found : record.simple? = some shape)
    {keyword : SimpleTypeName} (read : SimpleShape.typeName shape = .ok keyword) :
    record.IsSoundSimple ↔ keyword.text ≠ "document" := by
  constructor
  · intro sound
    rcases sound with ⟨_, _, found', read', other⟩
    cases found.symm.trans found'
    cases read.symm.trans read'
    exact other
  · intro other
    exact ⟨shape, keyword, found, read, other⟩

theorem not_lists (absent : record.entity? = none) (id : String) : ¬ record.Lists id := by
  intro lists
  rcases lists with ⟨_, _, found, -⟩
  cases absent.symm.trans found

theorem lists_iff {shape : EntityShape} (found : record.entity? = some shape)
    {body : NodeObject} (read : EntityShape.body shape = .ok body) (id : String) :
    record.Lists id ↔ NodeObject.Lists body id := by
  constructor
  · intro lists
    rcases lists with ⟨_, _, found', read', listing⟩
    cases found.symm.trans found'
    cases read.symm.trans read'
    exact listing
  · intro listing
    exact ⟨shape, body, found, read, listing⟩

end ShapeRecord

/-! ## Targets of operations -/

namespace OperationTarget

variable {read : Except Defect OperationTarget} {target : OperationTarget} {id : String}

theorem isNamed_iff (success : read = .ok target) {named : ShapeId}
    (form : OperationTarget.form target = .named named) : IsNamed read id ↔ named.text = id := by
  constructor
  · intro isNamed
    rcases isNamed with ⟨_, _, success', form', same⟩
    cases success.symm.trans success'
    cases form.symm.trans form'
    exact same
  · intro same
    exact ⟨target, named, success, form, same⟩

theorem not_isNamed (success : read = .ok target) {shape : InlineAggregateShape}
    (form : OperationTarget.form target = .inline shape) : ¬ IsNamed read id := by
  intro isNamed
  rcases isNamed with ⟨_, _, success', form', -⟩
  cases success.symm.trans success'
  cases form.symm.trans form'

end OperationTarget

/-! ## Members -/

namespace ShapeMember

variable {member : ShapeMember} {decl : MemberDecl} {name id : String}

theorem not_declares_of_explicit (readDecl : ShapeMember.decl member = .ok decl)
    {explicit : ExplicitShapeMember} (form : MemberDecl.form decl = .explicit explicit)
    {identifier : Identifier} (readName : ExplicitShapeMember.name explicit = .ok identifier)
    (different : identifier.text ≠ name) : ¬ Declares name member id := by
  intro declares
  rcases declares with ⟨_, _, _, _, readDecl', form', readName', named, -, -⟩
  cases readDecl.symm.trans readDecl'
  cases form.symm.trans form'
  cases readName.symm.trans readName'
  exact different named

theorem not_declares_of_elided (readDecl : ShapeMember.decl member = .ok decl)
    {elided : ElidedShapeMember} (form : MemberDecl.form decl = .elided elided) :
    ¬ Declares name member id := by
  intro declares
  rcases declares with ⟨_, _, _, _, readDecl', form', -⟩
  cases readDecl.symm.trans readDecl'
  cases form.symm.trans form'

theorem elides_iff_of_elided (readDecl : ShapeMember.decl member = .ok decl)
    {elided : ElidedShapeMember} (form : MemberDecl.form decl = .elided elided)
    {identifier : Identifier} (readName : ElidedShapeMember.name elided = .ok identifier) :
    Elides member name ↔ identifier.text = name := by
  constructor
  · intro elides
    rcases elides with ⟨_, _, _, readDecl', form', readName', named⟩
    cases readDecl.symm.trans readDecl'
    cases form.symm.trans form'
    cases readName.symm.trans readName'
    exact named
  · intro named
    exact ⟨decl, elided, identifier, readDecl, form, readName, named⟩

theorem not_elides_of_explicit (readDecl : ShapeMember.decl member = .ok decl)
    {explicit : ExplicitShapeMember} (form : MemberDecl.form decl = .explicit explicit) :
    ¬ Elides member name := by
  intro elides
  rcases elides with ⟨_, _, _, readDecl', form', -⟩
  cases readDecl.symm.trans readDecl'
  cases form.symm.trans form'

/-- A member that names its target elides none, and names one. -/
theorem Declares.unique {name' id' : String} (left : Declares name member id)
    (right : Declares name' member id') : id = id' := by
  rcases left with ⟨_, _, _, _, readDecl, form, _, _, readTarget, rfl⟩
  rcases right with ⟨_, _, _, _, readDecl', form', _, _, readTarget', rfl⟩
  cases readDecl.symm.trans readDecl'
  cases form.symm.trans form'
  cases readTarget.symm.trans readTarget'
  rfl

theorem Declares.not_elides {name' : String} (declares : Declares name member id) :
    ¬ Elides member name' := by
  rcases declares with ⟨_, _, _, _, readDecl, form, -⟩
  exact not_elides_of_explicit readDecl form

theorem Elides.unique {name' : String} (left : Elides member name)
    (right : Elides member name') : name = name' := by
  rcases left with ⟨_, _, _, readDecl, form, readName, rfl⟩
  exact (elides_iff_of_elided readDecl form readName).mp right

/-- The traits in front of the member. -/
def HasTraits (member : ShapeMember) (traits : List Trait) : Prop :=
  ∃ part, ShapeMember.traits member = .ok part ∧ Trait.ofStatements part = .ok traits

theorem HasTraits.unique {traits others : List Trait} (left : HasTraits member traits)
    (right : HasTraits member others) : traits = others := by
  rcases left with ⟨part, readPart, readTraits⟩
  rcases right with ⟨part', readPart', readTraits'⟩
  cases readPart.symm.trans readPart'
  exact Except.ok.inj (readTraits.symm.trans readTraits')

/-- The member is written `name: id`, with these traits in front of it. -/
def DeclaresWith (name : String) (member : ShapeMember) (target : MemberTarget) : Prop :=
  Declares name member target.id ∧ HasTraits member target.inherited

theorem DeclaresWith.unique {target other : MemberTarget}
    (left : DeclaresWith name member target) (right : DeclaresWith name member other) :
    target = other := by
  rcases target with ⟨id, inherited⟩
  rcases other with ⟨id', inherited'⟩
  cases left.1.unique right.1
  cases left.2.unique right.2
  rfl

/-- Asked for a name, a member gives the target and the traits that it declares for it. -/
theorem explicitTarget?_spec {found : Option MemberTarget}
    (read : ShapeMember.explicitTarget? name member = .ok found) :
    (found = none ∧ ∀ id, ¬ Declares name member id) ∨
      ∃ target, found = some target ∧ DeclaresWith name member target := by
  obtain ⟨decl, readDecl, read⟩ := bind_eq_ok_iff.mp read
  cases form : MemberDecl.form decl with
  | elided elided =>
    rw [form] at read
    cases read
    exact .inl ⟨rfl, fun id => not_declares_of_elided readDecl form⟩
  | explicit explicit =>
    rw [form] at read
    obtain ⟨identifier, readName, read⟩ := bind_eq_ok_iff.mp read
    split at read
    · rename_i same
      obtain ⟨written, readTarget, read⟩ := bind_eq_ok_iff.mp read
      obtain ⟨part, readPart, read⟩ := bind_eq_ok_iff.mp read
      obtain ⟨traits, readTraits, read⟩ := bind_eq_ok_iff.mp read
      cases read
      exact .inr ⟨_, rfl, ⟨decl, explicit, identifier, written, readDecl, form, readName, same,
        readTarget, rfl⟩, part, readPart, readTraits⟩
    · rename_i different
      cases read
      exact .inl ⟨rfl, fun id => not_declares_of_explicit readDecl form readName different⟩

/-- The reader of an explicit target finds what the member declares. -/
theorem declares_iff {found : Option MemberTarget}
    (read : ShapeMember.explicitTarget? name member = .ok found) (id : String) :
    Declares name member id ↔ found.map MemberTarget.id = some id := by
  rcases explicitTarget?_spec read with ⟨rfl, nothing⟩ | ⟨target, rfl, declares⟩
  · simp [nothing id]
  · constructor
    · intro declares'
      exact congrArg some (declares.1.unique declares')
    · intro found
      cases found
      exact declares.1

theorem declaresWith_iff {found : Option MemberTarget}
    (read : ShapeMember.explicitTarget? name member = .ok found) (target : MemberTarget) :
    DeclaresWith name member target ↔ found = some target := by
  rcases explicitTarget?_spec read with ⟨rfl, nothing⟩ | ⟨target', rfl, declares⟩
  · simp [DeclaresWith, nothing target.id]
  · constructor
    · intro declares'
      exact congrArg some (declares.unique declares')
    · intro found
      cases found
      exact declares

end ShapeMember

namespace ShapeIndex

variable {text : List Char} {index : ShapeIndex}

section Obtained

variable {α : Type} {given : MemberTarget → α} {found : Option MemberTarget}

/-- If a member says one thing at most, so does a mixin. -/
theorem Offers.unique {tells : ShapeMember → α → Prop} {mixin : ShapeId} {a b : α}
    (functional : ∀ member a b, tells member a → tells member b → a = b)
    (left : index.Offers tells mixin a) (right : index.Offers tells mixin b) : a = b := by
  rcases left with ⟨_, _, _, known, aggregate, ⟨part, readMembers, rfl⟩, first⟩
  rcases right with ⟨_, _, _, known', aggregate', ⟨part', readMembers', rfl⟩, first'⟩
  cases known.symm.trans known'
  cases aggregate.symm.trans aggregate'
  cases readMembers.symm.trans readMembers'
  exact First.unique functional first first'

/-- Looking a name up in a mixin finds what the mixin says of it, if this can be read off the
target and the traits of its members. -/
theorem offers_iff {name : String} {tells : ShapeMember → α → Prop}
    (each : ∀ member found, ShapeMember.explicitTarget? name member = .ok found →
      ∀ a, tells member a ↔ found.map given = some a)
    {mixin : ShapeId} (read : index.mixinMember? name mixin = .ok found) (a : α) :
    index.Offers tells mixin a ↔ found.map given = some a := by
  unfold mixinMember? at read
  cases form : (index.lookup? mixin.text).bind ShapeRecord.aggregate? with
  | none =>
    rw [form] at read
    cases read
    constructor
    · intro offers
      rcases offers with ⟨record, shape, _, known, aggregate, -, -⟩
      rw [known, Option.bind_some, aggregate] at form
      cases form
    · intro same
      cases same
  | some shape =>
    rw [form] at read
    obtain ⟨record, known, aggregate⟩ := Option.bind_eq_some_iff.mp form
    obtain ⟨part, readMembers, read⟩ := bind_eq_ok_iff.mp read
    have search : First tells (ShapeMembers.members part) a ↔ found.map given = some a :=
      Outcome.first_iff_of_findSomeM? (fun member _ => each member) read a
    rw [← search]
    constructor
    · intro offers
      rcases offers with ⟨_, _, _, known', aggregate', ⟨_, readMembers', rfl⟩, first⟩
      cases known.symm.trans known'
      cases aggregate.symm.trans aggregate'
      cases readMembers.symm.trans readMembers'
      exact first
    · intro first
      exact ⟨record, shape, _, known, aggregate, ⟨part, readMembers, rfl⟩, first⟩

/-- Looking a name up in mixins finds what the first of them says that says anything. -/
theorem first_offers_iff {name : String} {tells : ShapeMember → α → Prop}
    (each : ∀ member found, ShapeMember.explicitTarget? name member = .ok found →
      ∀ a, tells member a ↔ found.map given = some a)
    {mixins : List ShapeId} (read : mixins.findSomeM? (index.mixinMember? name) = .ok found)
    (a : α) : First (index.Offers tells) mixins a ↔ found.map given = some a :=
  Outcome.first_iff_of_findSomeM? (fun _ _ _ asked => offers_iff each asked) read a

/-- What is found for a member is what is known of it, if this can be read off its target. -/
theorem obtains_iff {own : ShapeMember → α → Prop} {tells : String → ShapeMember → α → Prop}
    (direct : ∀ member name id, ShapeMember.Declares name member id →
      ∀ a, own member a ↔ given ⟨id, []⟩ = a)
    (indirect : ∀ member name, ShapeMember.Elides member name → ∀ a, ¬ own member a)
    (each : ∀ name member found, ShapeMember.explicitTarget? name member = .ok found →
      ∀ a, tells name member a ↔ found.map given = some a)
    {shape : AggregateShape} {member : ShapeMember} {decl : MemberDecl}
    (part : decl.tree.IsPart text) (readDecl : ShapeMember.decl member = .ok decl)
    (read : index.memberTarget? (AggregateShape.mixins shape) decl = .ok found) (a : α) :
    index.Obtains own tells shape member a ↔ found.map given = some a := by
  unfold memberTarget? at read
  rw [← MemberDecl.tree_form] at part
  unfold Obtains
  cases form : MemberDecl.form decl with
  | explicit explicit =>
    rw [form] at read part
    obtain ⟨identifier, readName, -⟩ := View.gives_required part
      (show Category.guarantees _ .identifier from by decide)
    obtain ⟨target, readTarget, read⟩ := bind_eq_ok_iff.mp read
    cases read
    have declares : ShapeMember.Declares identifier.text member target.text :=
      ⟨decl, explicit, identifier, target, readDecl, form, readName, rfl, readTarget, rfl⟩
    simp [direct _ _ _ declares, declares.not_elides]
  | elided elided =>
    rw [form] at read
    obtain ⟨identifier, readName, read⟩ := bind_eq_ok_iff.mp read
    have elides : ShapeMember.Elides member identifier.text :=
      ⟨decl, elided, identifier, readDecl, form, readName, rfl⟩
    have search : First (index.Offers (tells identifier.text)) (AggregateShape.mixinIds shape) a ↔
        found.map given = some a := by
      unfold AggregateShape.mixinIds
      cases mixins : AggregateShape.mixins shape with
      | none =>
        rw [mixins] at read
        cases read
        constructor
        · intro first
          cases first
        · intro same
          cases same
      | some mixins' =>
        rw [mixins] at read
        exact first_offers_iff (each identifier.text) read a
    rw [← search]
    simp [indirect _ _ elides, ShapeMember.elides_iff_of_elided readDecl form readName]

end Obtained

/-- Looking a name up in a mixin finds the target of its first explicit member of this
name. -/
theorem provides_iff {name : String} {mixin : ShapeId} {found : Option MemberTarget}
    (read : index.mixinMember? name mixin = .ok found) (id : String) :
    index.Provides name mixin id ↔ found.map MemberTarget.id = some id :=
  offers_iff (fun _ _ => ShapeMember.declares_iff) read id

/-- The target that is found for a member is the one it has. -/
theorem hasTarget_iff {shape : AggregateShape} {member : ShapeMember} {decl : MemberDecl}
    {found : Option MemberTarget} (part : decl.tree.IsPart text)
    (readDecl : ShapeMember.decl member = .ok decl)
    (read : index.memberTarget? (AggregateShape.mixins shape) decl = .ok found) (id : String) :
    index.HasTarget shape member id ↔ found.map MemberTarget.id = some id := by
  refine obtains_iff ?_ ?_ (fun _ _ _ => ShapeMember.declares_iff) part readDecl read id
  · intro member name id declares other
    constructor
    · intro declaring
      rcases declaring with ⟨_, declares'⟩
      exact declares.unique declares'
    · intro same
      rw [← same]
      exact ⟨name, declares⟩
  · intro member name elides other declaring
    rcases declaring with ⟨_, declares⟩
    exact declares.not_elides elides

/-! ## Members of a shape -/

/-- Whether a list is sound is decided by its first member. -/
theorem isSoundList_iff {list : ShapeRecord} {shape : AggregateShape}
    (found : list.aggregate? = some shape) {part : ShapeMembers}
    (read : AggregateShape.members shape = .ok part) :
    index.IsSoundList list ↔ ∃ element others id,
      ShapeMembers.members part = element :: others ∧ index.HasTarget shape element id ∧
        index.IsSoundElement id := by
  constructor
  · intro isSound
    rcases isSound with ⟨_, element, others, id, found', ⟨_, read', written⟩, target, sound⟩
    cases found.symm.trans found'
    cases read.symm.trans read'
    exact ⟨element, others, id, written, target, sound⟩
  · intro isSound
    rcases isSound with ⟨element, others, id, written, target, sound⟩
    exact ⟨shape, element, others, id, found, ⟨part, read, written⟩, target, sound⟩

/-- Whether the members of a record are sound is decided one by one. -/
theorem hasSoundMembers_iff {record : ShapeRecord} {shape : AggregateShape}
    (found : record.aggregate? = some shape) {part : ShapeMembers}
    (read : AggregateShape.members shape = .ok part) :
    index.HasSoundMembers record ↔ ∀ member ∈ ShapeMembers.members part, ∃ id,
      index.HasTarget shape member id ∧ index.IsSoundTarget id := by
  constructor
  · intro sound
    exact sound shape _ found ⟨part, read, rfl⟩
  · intro each _ _ found' written
    rcases written with ⟨_, read', rfl⟩
    cases found.symm.trans found'
    cases read.symm.trans read'
    exact each

theorem hasSoundMembers_of_aggregate?_eq_none {record : ShapeRecord}
    (absent : record.aggregate? = none) : index.HasSoundMembers record := by
  intro shape members found
  cases absent.symm.trans found

end ShapeIndex

end ServiceIdl
