import ServiceIdl.Proofs.Model.Binding

/-!
# Documents without errors

What a document must satisfy so that nothing is missing from its model: every
operation that a service lists is there, has a verb that is known and an output that
is a structure, and every member of a structure has a target that is sound. A target
is sound if a type is found for it; a list is looked through once, and a mixin for
elided members only.

Everything is said about the tree and the index in the words of the grammar, and
without the functions that resolve them (`ShapeIndex.IsSound`).
-/

namespace ServiceIdl

/-! ## What declarations say -/

namespace ShapeMember

/-- The member is written `name: id`. -/
def Declares (name : String) (member : ShapeMember) (id : String) : Prop :=
  ∃ decl explicit identifier target,
    ShapeMember.decl member = .ok decl ∧ MemberDecl.form decl = .explicit explicit ∧
    ExplicitShapeMember.name explicit = .ok identifier ∧ identifier.text = name ∧
    ExplicitShapeMember.target explicit = .ok target ∧ target.text = id

/-- The member is written `$name`. -/
def Elides (member : ShapeMember) (name : String) : Prop :=
  ∃ decl elided identifier,
    ShapeMember.decl member = .ok decl ∧ MemberDecl.form decl = .elided elided ∧
    ElidedShapeMember.name elided = .ok identifier ∧ identifier.text = name

end ShapeMember

namespace AggregateShape

/-- The members of the shape, in the order of the document. -/
def HasMembers (shape : AggregateShape) (members : List ShapeMember) : Prop :=
  ∃ part, AggregateShape.members shape = .ok part ∧ ShapeMembers.members part = members

/-- The ids of the mixins of the shape, in the order of the document. -/
def mixinIds (shape : AggregateShape) : List ShapeId :=
  match AggregateShape.mixins shape with
  | none => []
  | some mixins => Mixins.targets mixins

end AggregateShape

/-- The entry is written `key: value`. -/
def NodeObjectKvp.Binds (key : String) (entry : NodeObjectKvp) (value : NodeValue) : Prop :=
  ∃ written,
    NodeObjectKvp.key entry = .ok written ∧ NodeObjectKey.name written = .ok key ∧
    NodeObjectKvp.value entry = .ok value

/-- The last entry with the key has this value. -/
def NodeObject.HasLast (object : NodeObject) (key : String) (value : NodeValue) : Prop :=
  First (NodeObjectKvp.Binds key) (NodeObject.entries object).reverse value

/-- The target of an input or an output is an id, and no structure written in place. -/
def OperationTarget.IsNamed (read : Except Defect OperationTarget) (id : String) : Prop :=
  ∃ target named,
    read = .ok target ∧ OperationTarget.form target = .named named ∧ named.text = id

/-- The node is an id, with or without quotes. -/
def NodeValue.IsId (node : NodeValue) (id : String) : Prop :=
  Value.ofNode node = .ok (.shapeId id) ∨ Value.ofNode node = .ok (.string id)

/-- The last entry `operations` is an array with the id as an element. -/
def NodeObject.Lists (body : NodeObject) (id : String) : Prop :=
  ∃ listing content elements,
    NodeObject.HasLast body "operations" listing ∧ NodeValue.content listing = .ok content ∧
    NodeValueKind.form content = .array elements ∧
    ∃ element ∈ NodeArray.values elements, NodeValue.IsId element id

namespace ShapeRecord

/-- The shape is simple, and its keyword is not the one without a scalar. -/
def IsSoundSimple (record : ShapeRecord) : Prop :=
  ∃ shape keyword,
    record.simple? = some shape ∧ SimpleShape.typeName shape = .ok keyword ∧
    keyword.text ≠ "document"

/-- The body of a service lists the id. -/
def Lists (service : ShapeRecord) (id : String) : Prop :=
  ∃ shape body,
    service.entity? = some shape ∧ EntityShape.body shape = .ok body ∧ NodeObject.Lists body id

/-- The first output of an operation is named by the id. -/
def HasNamedOutput (operation : ShapeRecord) (id : String) : Prop :=
  ∃ shape body output,
    operation.operation? = some shape ∧ OperationShape.body shape = .ok body ∧
    OperationBody.output body = some output ∧
    OperationTarget.IsNamed (OperationOutput.target output) id

end ShapeRecord

namespace ShapeIndex

/-! ## Targets of members -/

/-- The shape that the id of a mixin names has a member that says something, and the first one
that does says this. -/
def Offers {α : Type} (index : ShapeIndex) (tells : ShapeMember → α → Prop) (mixin : ShapeId)
    (a : α) : Prop :=
  ∃ record shape members,
    index.lookup? mixin.text = some record ∧ record.aggregate? = some shape ∧
    AggregateShape.HasMembers shape members ∧ First tells members a

/-- What is known of a member of a shape: what it says of its own, or what the first of the
mixins that say anything about the name that it elides says of that. -/
def Obtains {α : Type} (index : ShapeIndex) (own : ShapeMember → α → Prop)
    (tells : String → ShapeMember → α → Prop) (shape : AggregateShape) (member : ShapeMember)
    (a : α) : Prop :=
  own member a ∨ ∃ name, ShapeMember.Elides member name ∧
    First (index.Offers (tells name)) (AggregateShape.mixinIds shape) a

/-- The shape that the id of a mixin names has an explicit member of this name, and
the first one has this target. -/
def Provides (index : ShapeIndex) (name : String) (mixin : ShapeId) (id : String) : Prop :=
  index.Offers (ShapeMember.Declares name) mixin id

/-- The target of a member of a shape: its own, or that of the member it elides, in
the first of the mixins that has one. -/
def HasTarget (index : ShapeIndex) (shape : AggregateShape) (member : ShapeMember)
    (id : String) : Prop :=
  index.Obtains (fun member id => ∃ name, ShapeMember.Declares name member id)
    ShapeMember.Declares shape member id

/-- A type is found for the id where no list is looked through. -/
def IsSoundElement (index : ShapeIndex) (id : String) : Prop :=
  if Scalar.isKeyword id then id ≠ "document"
  else if (Scalar.ofWrapper? id).isSome then True
  else
    match index.find? .simple id with
    | some record => record.IsSoundSimple
    | none => Scalar.isExpectedPrimitive id = false

/-- The list has a first member, and a type is found for its target. -/
def IsSoundList (index : ShapeIndex) (list : ShapeRecord) : Prop :=
  ∃ shape element others id,
    list.aggregate? = some shape ∧ AggregateShape.HasMembers shape (element :: others) ∧
    index.HasTarget shape element id ∧ index.IsSoundElement id

/-- A type is found for the id as the target of a member. -/
def IsSoundTarget (index : ShapeIndex) (id : String) : Prop :=
  if Scalar.isKeyword id then id ≠ "document"
  else if (Scalar.ofWrapper? id).isSome then True
  else
    match index.find? .list id with
    | some list => index.IsSoundList list
    | none => index.IsSoundElement id

/-- Every member of the shape has a target, and a type is found for it. -/
def HasSoundMembers (index : ShapeIndex) (record : ShapeRecord) : Prop :=
  ∀ shape members, record.aggregate? = some shape → AggregateShape.HasMembers shape members →
    ∀ member ∈ members, ∃ id, index.HasTarget shape member id ∧ index.IsSoundTarget id

/-! ## Documents -/

/-- An operation of the document that some service lists. -/
def IsListed (index : ShapeIndex) (operation : ShapeRecord) : Prop :=
  ∃ service ∈ index.records .service, ∃ id,
    service.Lists id ∧ index.find? .operation id = some operation

/-- Nothing of the document is missing from its model. -/
structure IsSound (index : ShapeIndex) : Prop where
  /-- What a service lists is an operation. -/
  operations : ∀ service ∈ index.records .service, ∀ id, service.Lists id →
    ∃ operation, index.find? .operation id = some operation
  /-- A listed operation that is bound has a verb that is known. -/
  verbs : ∀ operation, index.IsListed operation → ∀ binding : HttpBinding,
    binding.IsGivenBy (index.traitsOf operation.name) → binding.method ∈ HttpVerb.literals
  /-- A listed operation with a named output has a structure as its output. -/
  outputs : ∀ operation, index.IsListed operation → ∀ id, operation.HasNamedOutput id →
    ∃ record, index.find? .structureShape id = some record
  /-- The members of structures have types. -/
  members : ∀ record ∈ index.records .structureShape, index.HasSoundMembers record

end ShapeIndex

end ServiceIdl
