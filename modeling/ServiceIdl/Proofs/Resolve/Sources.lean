import ServiceIdl.Proofs.Shape.Named

/-!
# The traits that a member collects

A member collects traits on the way to its type: those of the list it refers to, those
of the simple shape behind it or behind the elements of the list, those of a mixin's
member that is taken over, and its own. `ShapeIndex.Collects` says which and in what
order, in words of the tree and the index only; there is one such list of traits at most
(`ShapeIndex.Collects.unique`).

A list is looked through once, so its elements are described by `ElementTraits`, which
knows no lists, while the targets of members are described by `TargetTraits`, which
does.
-/

namespace ServiceIdl

/-! ## The traits that a member collects -/

namespace ShapeIndex

/-- The first explicit member of this name in the shape that the id of a mixin names
has this target and these traits. -/
def ProvidesWith (index : ShapeIndex) (name : String) (mixin : ShapeId)
    (target : MemberTarget) : Prop :=
  index.Offers (ShapeMember.DeclaresWith name) mixin target

/-- What a member of a shape refers to: its own target and nothing inherited, or the
target and the traits of the member it elides, in the first of the mixins that has
one. -/
def Takes (index : ShapeIndex) (shape : AggregateShape) (member : ShapeMember)
    (target : MemberTarget) : Prop :=
  index.Obtains
    (fun member target => ∃ name,
      ShapeMember.Declares name member target.id ∧ target.inherited = [])
    ShapeMember.DeclaresWith shape member target

/-- The traits of a member of a shape, where `through` says which come with an id: those
that come with its target, those inherited from a mixin, and its own. -/
inductive MemberTraits (index : ShapeIndex) (through : String → List Trait → Prop)
    (shape : AggregateShape) (member : ShapeMember) : List Trait → Prop
  | targeted {target : MemberTarget} {met own : List Trait} :
    index.Takes shape member target → through target.id met →
    ShapeMember.HasTraits member own →
    MemberTraits index through shape member (met ++ target.inherited ++ own)
  | untargeted {own : List Trait} :
    (∀ target, ¬ index.Takes shape member target) → ShapeMember.HasTraits member own →
    MemberTraits index through shape member own

/-- The traits that come with the target of a list's element: those of the simple shape
it is resolved as, if it is. -/
inductive ElementTraits (index : ShapeIndex) (statements : List ShapeStatement) (id : String) :
    List Trait → Prop
  | simple {record : ShapeRecord} {traits : List Trait} :
    isBuiltin id = false → index.find? .simple id = some record →
    HasLastTraits statements record.name traits → ElementTraits index statements id traits
  | other : (isBuiltin id = true ∨ index.find? .simple id = none) →
    ElementTraits index statements id []

/-- The traits that come with a list: its own, and then those of its first member. -/
inductive ListTraits (index : ShapeIndex) (statements : List ShapeStatement)
    (list : ShapeRecord) : List Trait → Prop
  | empty {shape : AggregateShape} {own : List Trait} :
    list.aggregate? = some shape → AggregateShape.HasMembers shape [] →
    HasLastTraits statements list.name own → ListTraits index statements list own
  | element {shape : AggregateShape} {element : ShapeMember} {others : List ShapeMember}
      {own inner : List Trait} :
    list.aggregate? = some shape → AggregateShape.HasMembers shape (element :: others) →
    HasLastTraits statements list.name own →
    index.MemberTraits (index.ElementTraits statements) shape element inner →
    ListTraits index statements list (own ++ inner)

/-- The traits that come with the target of a member: those of the list it is resolved
as, or else those that come with an element. -/
inductive TargetTraits (index : ShapeIndex) (statements : List ShapeStatement) (id : String) :
    List Trait → Prop
  | list {list : ShapeRecord} {traits : List Trait} :
    isBuiltin id = false → index.find? .list id = some list →
    index.ListTraits statements list traits → TargetTraits index statements id traits
  | other {traits : List Trait} :
    (isBuiltin id = true ∨ index.find? .list id = none) →
    index.ElementTraits statements id traits → TargetTraits index statements id traits

/-- The traits that a member of a structure collects. -/
def Collects (index : ShapeIndex) (statements : List ShapeStatement) (shape : AggregateShape)
    (member : ShapeMember) (traits : List Trait) : Prop :=
  index.MemberTraits (index.TargetTraits statements) shape member traits

end ShapeIndex

/-! ## Nothing else is collected -/

theorem HasLastTraits.unique {statements : List ShapeStatement} {name : String}
    {traits others : List Trait} (left : HasLastTraits statements name traits)
    (right : HasLastTraits statements name others) : traits = others := by
  refine First.unique ?_ left right
  exact fun statement traits others declares declares' => (declares.unique declares').2

namespace ShapeIndex

variable {index : ShapeIndex} {statements : List ShapeStatement} {shape : AggregateShape}
  {member : ShapeMember}

theorem Takes.unique {target other : MemberTarget} (left : index.Takes shape member target)
    (right : index.Takes shape member other) : target = other := by
  rcases target with ⟨id, inherited⟩
  rcases other with ⟨id', inherited'⟩
  rcases left with ⟨name, declares, rfl⟩ | ⟨name, elides, first⟩
  · rcases right with ⟨name', declares', rfl⟩ | ⟨name', elides', -⟩
    · cases declares.unique declares'
      rfl
    · exact absurd elides' declares.not_elides
  · rcases right with ⟨name', declares', -⟩ | ⟨name', elides', first'⟩
    · exact absurd elides declares'.not_elides
    · cases elides.unique elides'
      refine First.unique ?_ first first'
      intro mixin target other offers offers'
      refine Offers.unique ?_ offers offers'
      exact fun member target other => ShapeMember.DeclaresWith.unique

/-- A member has one list of traits if what it goes through has. -/
theorem MemberTraits.unique {through : String → List Trait → Prop}
    (functional : ∀ id ts us, through id ts → through id us → ts = us) {traits others : List Trait}
    (left : index.MemberTraits through shape member traits)
    (right : index.MemberTraits through shape member others) : traits = others := by
  cases left with
  | targeted takes comes own =>
    cases right with
    | targeted takes' comes' own' =>
      cases takes.unique takes'
      rw [functional _ _ _ comes comes', own.unique own']
    | untargeted nothing _ => exact absurd takes (nothing _)
  | untargeted nothing own =>
    cases right with
    | targeted takes' _ _ => exact absurd takes' (nothing _)
    | untargeted _ own' => exact own.unique own'

theorem ElementTraits.unique {id : String} {traits others : List Trait}
    (left : index.ElementTraits statements id traits)
    (right : index.ElementTraits statements id others) : traits = others := by
  cases left with
  | simple own found last =>
    cases right with
    | simple _ found' last' =>
      cases found.symm.trans found'
      exact last.unique last'
    | other none =>
      rw [own, found] at none
      simp at none
  | other none =>
    cases right with
    | simple own found _ =>
      rw [own, found] at none
      simp at none
    | other => rfl

theorem ListTraits.unique {list : ShapeRecord} {traits others : List Trait}
    (left : index.ListTraits statements list traits)
    (right : index.ListTraits statements list others) : traits = others := by
  -- The first member of a list is what its declaration says.
  have members {shape shape' : AggregateShape} {written written' : List ShapeMember}
      (found : list.aggregate? = some shape) (found' : list.aggregate? = some shape')
      (has : AggregateShape.HasMembers shape written)
      (has' : AggregateShape.HasMembers shape' written') : shape = shape' ∧ written = written' := by
    rcases has with ⟨part, read, rfl⟩
    rcases has' with ⟨part', read', rfl⟩
    cases found.symm.trans found'
    cases read.symm.trans read'
    exact ⟨rfl, rfl⟩
  cases left with
  | empty found has own =>
    cases right with
    | empty _ _ own' => exact own.unique own'
    | element found' has' _ _ => cases (members found found' has has').2
  | element found has own inner =>
    cases right with
    | empty found' has' _ => cases (members found found' has has').2
    | element found' has' own' inner' =>
      obtain ⟨rfl, same⟩ := members found found' has has'
      cases same
      have functional (id : String) (ts us : List Trait)
          (left : index.ElementTraits statements id ts)
          (right : index.ElementTraits statements id us) : ts = us := left.unique right
      rw [own.unique own', MemberTraits.unique functional inner inner']

theorem TargetTraits.unique {id : String} {traits others : List Trait}
    (left : index.TargetTraits statements id traits)
    (right : index.TargetTraits statements id others) : traits = others := by
  cases left with
  | list own found inner =>
    cases right with
    | list _ found' inner' =>
      cases found.symm.trans found'
      exact inner.unique inner'
    | other none _ =>
      rw [own, found] at none
      simp at none
  | other none inner =>
    cases right with
    | list own found _ =>
      rw [own, found] at none
      simp at none
    | other _ inner' => exact inner.unique inner'

/-- What a member collects is determined by the document. -/
theorem Collects.unique {traits others : List Trait}
    (left : index.Collects statements shape member traits)
    (right : index.Collects statements shape member others) : traits = others := by
  refine MemberTraits.unique ?_ left right
  intro id ts us comes comes'
  exact TargetTraits.unique comes comes'

end ShapeIndex

end ServiceIdl
