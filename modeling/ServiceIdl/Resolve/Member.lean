import ServiceIdl.Resolve.TypeRef

/-!
# Members of structures

A member names its target, or elides it and takes over target and traits of the
member of the same name in a mixin. Only the mixin's own explicit members count.
The constraints of a member come from the shapes looked through on the way to
its type, from the mixin's member, and from its own traits, in this order.
-/

namespace ServiceIdl

/-- The target of a member, with the traits of the mixin's member if the member
is elided. -/
structure MemberTarget where
  id : String
  inherited : List Trait

/-- The target of the member, with its traits, if it is explicit and has this name. -/
def ShapeMember.explicitTarget? (name : String) (member : ShapeMember) :
    Except Defect (Option MemberTarget) := do
  match MemberDecl.form (← ShapeMember.decl member) with
  | .elided _ => return none
  | .explicit decl =>
    if (← ExplicitShapeMember.name decl).text = name then
      let id := (← ExplicitShapeMember.target decl).text
      return some { id, inherited := ← Trait.ofStatements (← ShapeMember.traits member) }
    else return none

namespace ShapeIndex

/-- The target of the explicit member of a mixin with a name. -/
def mixinMember? (index : ShapeIndex) (name : String) (mixin : ShapeId) :
    Except Defect (Option MemberTarget) :=
  match (index.lookup? mixin.text).bind ShapeRecord.aggregate? with
  | none => .ok none
  | some shape => do
    let members := ShapeMembers.members (← AggregateShape.members shape)
    members.findSomeM? (ShapeMember.explicitTarget? name)

/-- The target of a member of a shape with these mixins. -/
def memberTarget? (index : ShapeIndex) (mixins : Option Mixins) (decl : MemberDecl) :
    Except Defect (Option MemberTarget) :=
  match MemberDecl.form decl with
  | .explicit member => do
    return some { id := (← ExplicitShapeMember.target member).text, inherited := [] }
  | .elided member => do
    let name := (← ElidedShapeMember.name member).text
    match mixins with
    | none => return none
    | some mixins => (Mixins.targets mixins).findSomeM? (index.mixinMember? name)

/-- The type of the elements of a list shape, with all traits met on the way. -/
def resolveElement (index : ShapeIndex) (shape : AggregateShape) (element : ShapeMember) :
    Reporting ResolvedType := do
  let decl ← ShapeMember.decl element
  let own ← Trait.ofStatements (← ShapeMember.traits element)
  match ← index.memberTarget? (AggregateShape.mixins shape) decl with
  | none =>
    let name := (← MemberDecl.name decl).text
    Reporting.report (.unexpectedElision name) element.span
    return ResolvedType.unknown.withTraits own
  | some target =>
    let resolved ← index.resolveTypeRef target.id element.span
    return (resolved.withTraits target.inherited).withTraits own

/-- The type of a list shape: an array of the type of its first member. -/
def resolveList (index : ShapeIndex) (list : ShapeRecord) : Reporting ResolvedType := do
  let traits := index.traitsOf list.name
  match list.aggregate? with
  | none => return .unknownArray traits
  | some shape =>
    match ShapeMembers.members (← AggregateShape.members shape) with
    | [] =>
      Reporting.report (.missingListMember list.name) list.span
      return .unknownArray traits
    | element :: _ =>
      let resolved ← index.resolveElement shape element
      return { resolved with isArray := true, traits := traits ++ resolved.traits }

/-- The type of the target of a member. -/
def resolveTarget (index : ShapeIndex) (id : String) (span : Span) : Reporting ResolvedType :=
  match index.listRef? id with
  | some list => index.resolveList list
  | none => index.resolveTypeRef id span

/-- The type of a member of a shape with these mixins, with the traits that it
takes over. -/
def resolveMemberType (index : ShapeIndex) (mixins : Option Mixins) (decl : MemberDecl)
    (name : String) (span : Span) : Reporting ResolvedType := do
  match ← index.memberTarget? mixins decl with
  | none => Reporting.noting .unknown [⟨.unexpectedElision name, span⟩]
  | some target => return (← index.resolveTarget target.id span).withTraits target.inherited

/-- The member of a model for a member of a shape with these mixins. -/
def resolveMember (index : ShapeIndex) (lines : LineIndex) (mixins : Option Mixins)
    (member : ShapeMember) : Reporting Member := do
  let decl ← ShapeMember.decl member
  let name := (← MemberDecl.name decl).text
  let own ← Trait.ofStatements (← ShapeMember.traits member)
  let resolved ← index.resolveMemberType mixins decl name member.span
  let traits := resolved.traits ++ own
  Reporting.noting
    { name
      isArray := resolved.isArray
      isPrimitive := resolved.isPrimitive
      typeName := resolved.typeName
      rules := Constraint.ofTraits traits
      location := lines.locate member.span }
    (Constraint.reports traits)

/-- The members of a model for those of a structure. -/
def resolveMembers (index : ShapeIndex) (lines : LineIndex) (record : ShapeRecord) :
    Reporting (List Member) :=
  match record.aggregate? with
  | none => .value []
  | some shape => do
    let members := ShapeMembers.members (← AggregateShape.members shape)
    members.mapM (index.resolveMember lines (AggregateShape.mixins shape))

end ShapeIndex

end ServiceIdl
