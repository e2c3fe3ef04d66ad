import ServiceIdl.Proofs.Shape.Bare
import ServiceIdl.Proofs.Text.Spacing
import ServiceIdl.Resolve.Document

/-!
# Resolving bare trees

A model names what a document declares and locates it, and neither depends on the text
between words. So every resolver gives the same for the bare index and the lines of the
uniform text, function by function, up to the whole model (`ShapeIndex.resolve_bare`).
-/

namespace ServiceIdl

open Outcome (bind_of_map)

/-! ## Reading with reports -/

namespace Reporting

variable {α β γ : Type}

/-- What goes on with a changed part of the tree goes on with the part. -/
theorem read_bind_of_map {read : Except Defect α} {f : α → β} {next : β → Reporting γ} :
    (do next (← (read.map f : Except Defect β))) = (do next (f (← read)) : Reporting γ) := by
  cases read <;> rfl

/-- If each changed element is resolved to a changed result, so is the changed list. -/
theorem mapM_map_eq {δ : Type} {f : α → Reporting β} {f' : γ → Reporting δ} {h : α → γ} {k : β → δ}
    (alike : ∀ a, f' (h a) = k <$> f a) (as : List α) :
    (as.map h).mapM f' = List.map k <$> as.mapM f := by
  induction as with
  | nil => rfl
  | cons a as ih =>
    rw [List.map_cons, List.mapM_cons, List.mapM_cons, alike, bind_map_left, ih]
    simp only [map_bind, bind_map_left, map_pure, List.map_cons]

end Reporting

open Reporting (read_bind_of_map)

/-! ## Types -/

/-- The meaning of an id for the bare index. -/
def TypeRef.bare : TypeRef → TypeRef
  | .alias shape => .alias shape.bare
  | .keyword word => .keyword word
  | .wrapper scalar => .wrapper scalar
  | .expectedPrimitive id => .expectedPrimitive id
  | .named id => .named id

/-- The form of the bare view. -/
def MemberDecl.Form.bare : MemberDecl.Form → MemberDecl.Form
  | .explicit v => .explicit v.bare
  | .elided v => .elided v.bare

theorem MemberDecl.form_bare (decl : MemberDecl) :
    MemberDecl.form decl.bare = (MemberDecl.form decl).bare := by
  rcases decl with ⟨tree, accepted⟩
  cases tree with
  | token => cases Category.isNode_of_mem_kinds accepted
  | node kind span children =>
    simp only [Category.kinds, Tree.kind, List.mem_cons, List.not_mem_nil, or_false] at accepted
    rcases accepted with rfl | rfl
    all_goals rfl

/-- The form of the bare view. -/
def OperationTarget.Form.bare : OperationTarget.Form → OperationTarget.Form
  | .inline v => .inline v.bare
  | .named v => .named v.bare

theorem OperationTarget.form_bare (target : OperationTarget) :
    OperationTarget.form target.bare = (OperationTarget.form target).bare := by
  rcases target with ⟨tree, accepted⟩
  cases tree with
  | token => cases Category.isNode_of_mem_kinds accepted
  | node kind span children =>
    simp only [Category.kinds, Tree.kind, List.mem_cons, List.not_mem_nil, or_false] at accepted
    rcases accepted with rfl | rfl
    all_goals rfl

namespace ShapeIndex

variable (index : ShapeIndex) (lines : LineIndex)

/-- What an id refers to is the bare record of it. -/
theorem typeRef_bare (id : String) : index.bare.typeRef id = (index.typeRef id).bare := by
  unfold typeRef
  rw [find?_bare]
  split
  · rfl
  · split
    · rfl
    · cases index.find? .simple id with
      | some shape => rfl
      | none =>
        simp only [Option.map_none]
        split <;> rfl

theorem listRef?_bare (id : String) :
    index.bare.listRef? id = (index.listRef? id).map ShapeRecord.bare := by
  unfold listRef?
  rw [find?_bare]
  split <;> rfl

theorem resolveAlias_bare (shape : ShapeRecord) :
    index.bare.resolveAlias shape.bare = index.resolveAlias shape := by
  unfold resolveAlias
  rw [ShapeRecord.simple?_bare]
  cases shape.simple? with
  | none => rfl
  | some decl =>
    simp only [Option.map_some, SimpleShape.typeName, ShapeRecord.span_bare,
      ShapeRecord.name_bare, traitsOf_bare]
    rw [View.required_word (by decide) (by decide)]

/-- The type that an id refers to does not depend on the text outside words. -/
theorem resolveTypeRef_bare (id : String) (span : Span) :
    index.bare.resolveTypeRef id span = index.resolveTypeRef id span := by
  unfold resolveTypeRef
  rw [typeRef_bare]
  cases index.typeRef id with
  | «alias» shape => exact resolveAlias_bare index shape
  | keyword | wrapper | expectedPrimitive | named => rfl

/-! ## Members -/

theorem explicitTarget?_bare (name : String) (member : ShapeMember) :
    ShapeMember.explicitTarget? name member.bare = ShapeMember.explicitTarget? name member := by
  unfold ShapeMember.explicitTarget? ShapeMember.decl ShapeMember.traits
  rw [View.required_bare (by decide), View.required_bare (by decide), bind_of_map]
  refine bind_congr fun decl => ?_
  rw [MemberDecl.form_bare]
  cases MemberDecl.form decl with
  | elided => rfl
  | explicit decl =>
    simp only [MemberDecl.Form.bare, ExplicitShapeMember.name, ExplicitShapeMember.target]
    rw [View.required_word (by decide) (by decide), View.required_word (by decide) (by decide)]
    simp only [bind_of_map, Trait.ofStatements_bare]

theorem mixinMember?_bare (name : String) (mixin : ShapeId) :
    index.bare.mixinMember? name mixin = index.mixinMember? name mixin := by
  unfold mixinMember?
  rw [lookup?_bare]
  cases index.lookup? mixin.text with
  | none => rfl
  | some record =>
    simp only [Option.map_some, Option.bind_some, ShapeRecord.aggregate?_bare]
    cases record.aggregate? with
    | none => rfl
    | some shape =>
      simp only [Option.map_some, AggregateShape.members, ShapeMembers.members]
      rw [View.required_bare (by decide), bind_of_map]
      refine bind_congr fun members => ?_
      rw [View.many_bare (by decide), Outcome.findSomeM?_map]
      congr 1
      funext member
      exact explicitTarget?_bare name member

theorem memberTarget?_bare (mixins : Option Mixins) (decl : MemberDecl) :
    index.bare.memberTarget? (mixins.map View.bare) decl.bare =
      index.memberTarget? mixins decl := by
  unfold memberTarget?
  rw [MemberDecl.form_bare]
  cases MemberDecl.form decl with
  | explicit member =>
    simp only [MemberDecl.Form.bare, ExplicitShapeMember.target]
    rw [View.required_word (by decide) (by decide)]
  | elided member =>
    simp only [MemberDecl.Form.bare, ElidedShapeMember.name]
    rw [View.required_word (by decide) (by decide)]
    cases mixins with
    | none => rfl
    | some mixins =>
      simp only [Option.map_some, Mixins.targets]
      rw [View.many_word (by decide) (by decide)]
      refine bind_congr fun name => ?_
      congr 1
      funext mixin
      exact mixinMember?_bare index name.text mixin

theorem resolveElement_bare (shape : AggregateShape) (element : ShapeMember) :
    index.bare.resolveElement shape.bare element.bare = index.resolveElement shape element := by
  unfold resolveElement ShapeMember.decl ShapeMember.traits
  rw [View.required_bare (by decide), View.required_bare (by decide), read_bind_of_map]
  refine bind_congr fun decl => ?_
  simp only [read_bind_of_map, Trait.ofStatements_bare, AggregateShape.mixins, MemberDecl.name,
    View.span_bare]
  rw [View.optional_bare (by decide), View.required_word (by decide) (by decide)]
  simp only [memberTarget?_bare, resolveTypeRef_bare]

theorem resolveList_bare (list : ShapeRecord) :
    index.bare.resolveList list.bare = index.resolveList list := by
  unfold resolveList
  rw [ShapeRecord.aggregate?_bare]
  cases list.aggregate? with
  | none => rfl
  | some shape =>
    simp only [Option.map_some, AggregateShape.members, ShapeMembers.members]
    rw [View.required_bare (by decide), read_bind_of_map]
    refine bind_congr fun members => ?_
    rw [View.many_bare (by decide)]
    cases members.many .shapeMember with
    | nil => simp only [List.map_nil, ShapeRecord.span_bare, ShapeRecord.name_bare, traitsOf_bare]
    | cons element others =>
      simp only [List.map_cons, resolveElement_bare, ShapeRecord.name_bare, traitsOf_bare]

theorem resolveTarget_bare (id : String) (span : Span) :
    index.bare.resolveTarget id span = index.resolveTarget id span := by
  unfold resolveTarget
  rw [listRef?_bare]
  cases index.listRef? id with
  | none => exact resolveTypeRef_bare index id span
  | some list => exact resolveList_bare index list

theorem resolveMemberType_bare (mixins : Option Mixins) (decl : MemberDecl) (name : String)
    (span : Span) :
    index.bare.resolveMemberType (mixins.map View.bare) decl.bare name span =
      index.resolveMemberType mixins decl name span := by
  unfold resolveMemberType
  simp only [memberTarget?_bare, resolveTarget_bare]

/-- A member keeps its location, since the lines break at the same places. -/
theorem resolveMember_bare (mixins : Option Mixins) (member : ShapeMember) :
    index.bare.resolveMember lines.uniform (mixins.map View.bare) member.bare =
      index.resolveMember lines mixins member := by
  unfold resolveMember ShapeMember.decl ShapeMember.traits MemberDecl.name
  rw [View.required_bare (by decide), View.required_bare (by decide), read_bind_of_map]
  refine bind_congr fun decl => ?_
  rw [View.required_word (by decide) (by decide)]
  simp only [read_bind_of_map, Trait.ofStatements_bare, resolveMemberType_bare, View.span_bare,
    LineIndex.locate_uniform]

theorem resolveMembers_bare (record : ShapeRecord) :
    index.bare.resolveMembers lines.uniform record.bare = index.resolveMembers lines record := by
  unfold resolveMembers
  rw [ShapeRecord.aggregate?_bare]
  cases record.aggregate? with
  | none => rfl
  | some shape =>
    simp only [Option.map_some, AggregateShape.members, ShapeMembers.members,
      AggregateShape.mixins]
    rw [View.required_bare (by decide), read_bind_of_map, View.optional_bare (by decide)]
    refine bind_congr fun members => ?_
    rw [View.many_bare (by decide), List.mapM_map]
    congr 1
    funext member
    exact resolveMember_bare index lines (shape.optional .mixins) member

end ShapeIndex

/-! ## Structures and enumerations -/

@[simp] theorem Deprecation.ofTraits?_uniform (lines : LineIndex) (traits : List Trait) :
    Deprecation.ofTraits? lines.uniform traits = Deprecation.ofTraits? lines traits := by
  simp only [Deprecation.ofTraits?, LineIndex.locate_uniform]

namespace EnumValue

theorem literalOf?_bare (member : EnumShapeMember) :
    literalOf? member.bare = literalOf? member := by
  unfold literalOf? EnumShapeMember.value
  rw [View.optional_bare (by decide)]
  cases member.optional .valueAssignment with
  | none => rfl
  | some assignment =>
    simp only [Option.map_some, ValueAssignment.value]
    rw [View.required_bare (by decide), bind_of_map]
    simp only [Value.ofNode_bare]

/-- An enum value keeps its literal, its deprecation and its place. -/
theorem ofMember_bare (lines : LineIndex) (member : EnumShapeMember) :
    ofMember lines.uniform member.bare = ofMember lines member := by
  unfold ofMember EnumShapeMember.traits EnumShapeMember.name
  rw [View.required_bare (by decide), View.required_word (by decide) (by decide), bind_of_map]
  simp only [Trait.ofStatements_bare, literalOf?_bare, Deprecation.ofTraits?_uniform,
    View.span_bare, LineIndex.locate_uniform]

end EnumValue

namespace ShapeIndex

variable (index : ShapeIndex) (lines : LineIndex)

theorem resolveStructure_bare (record : ShapeRecord) :
    index.bare.resolveStructure lines.uniform record.bare =
      index.resolveStructure lines record := by
  simp only [resolveStructure, resolveMembers_bare, traitsOf_bare, ShapeRecord.name_bare,
    ShapeRecord.span_bare, Deprecation.ofTraits?_uniform, LineIndex.locate_uniform]

theorem resolveEnumShape_bare (shape : EnumShape) :
    resolveEnumShape lines.uniform shape.bare = resolveEnumShape lines shape := by
  unfold resolveEnumShape EnumShape.typeName EnumShape.members EnumShapeMembers.members
  rw [View.required_word (by decide) (by decide), View.required_bare (by decide)]
  refine bind_congr fun word => ?_
  rw [bind_of_map]
  refine bind_congr fun members => ?_
  have each : EnumValue.ofMember lines.uniform ∘ View.bare = EnumValue.ofMember lines :=
    funext (EnumValue.ofMember_bare lines)
  rw [View.many_bare (by decide)]
  simp only [List.mapM_map, each]

theorem resolveEnum_bare (record : ShapeRecord) :
    index.bare.resolveEnum lines.uniform record.bare = index.resolveEnum lines record := by
  unfold resolveEnum
  rw [ShapeRecord.enum?_bare]
  cases record.enum? with
  | none =>
    simp only [Option.map_none, traitsOf_bare, ShapeRecord.name_bare, ShapeRecord.span_bare,
      Deprecation.ofTraits?_uniform, LineIndex.locate_uniform]
  | some shape =>
    simp only [Option.map_some, resolveEnumShape_bare, traitsOf_bare, ShapeRecord.name_bare,
      ShapeRecord.span_bare, Deprecation.ofTraits?_uniform, LineIndex.locate_uniform]

/-! ## Operations -/

theorem resolveInput_bare (operation : String) (input : OperationInput) :
    index.bare.resolveInput lines.uniform operation input.bare =
      index.resolveInput lines operation input := by
  unfold resolveInput OperationInput.target
  rw [View.required_bare (by decide), read_bind_of_map]
  refine bind_congr fun target => ?_
  rw [OperationTarget.form_bare]
  cases OperationTarget.form target with
  | inline shape => simp only [OperationTarget.Form.bare, View.span_bare]
  | named id =>
    simp only [OperationTarget.Form.bare]
    rw [View.bare_of_isWord (by decide), find?_bare]
    cases index.find? .structureShape id.text with
    | none => rfl
    | some record => exact resolveMembers_bare index lines record

theorem resolveOutput_bare (operation : String) (output : OperationOutput) :
    index.bare.resolveOutput lines.uniform operation output.bare =
      index.resolveOutput lines operation output := by
  unfold resolveOutput OperationOutput.target OperationOutput.traits
  rw [View.required_bare (by decide), View.required_bare (by decide), read_bind_of_map]
  refine bind_congr fun target => ?_
  rw [OperationTarget.form_bare]
  cases OperationTarget.form target with
  | inline shape => simp only [OperationTarget.Form.bare, View.span_bare]
  | named id =>
    simp only [OperationTarget.Form.bare, read_bind_of_map, Trait.ofStatements_bare]
    rw [View.bare_of_isWord (by decide), find?_bare]
    refine bind_congr fun part => bind_congr fun own => ?_
    cases index.find? .structureShape id.text with
    | none => rfl
    | some record =>
      simp only [Option.map_some, traitsOf_bare, ShapeRecord.name_bare, LineIndex.locate_uniform]

theorem resolveSignature_bare (operation : String) (shape : OperationShape) :
    index.bare.resolveSignature lines.uniform operation shape.bare =
      index.resolveSignature lines operation shape := by
  have parameters (body : OperationBody) :
      index.bare.resolveParameters lines.uniform operation body.bare =
        index.resolveParameters lines operation body := by
    unfold resolveParameters OperationBody.input
    rw [View.optional_bare (by decide)]
    cases body.optional .operationInput with
    | none => rfl
    | some input => exact resolveInput_bare index lines operation input
  have returnType (body : OperationBody) :
      index.bare.resolveReturnType lines.uniform operation body.bare =
        index.resolveReturnType lines operation body := by
    unfold resolveReturnType OperationBody.output
    rw [View.optional_bare (by decide)]
    cases body.optional .operationOutput with
    | none => rfl
    | some output => exact resolveOutput_bare index lines operation output
  unfold resolveSignature OperationShape.body
  rw [View.required_bare (by decide), read_bind_of_map]
  simp only [parameters, returnType]

theorem resolveMethod_bare (record : ShapeRecord) :
    index.bare.resolveMethod lines.uniform record.bare = index.resolveMethod lines record := by
  unfold resolveMethod
  rw [ShapeRecord.operation?_bare]
  cases record.operation? with
  | none =>
    simp only [Option.map_none, traitsOf_bare, ShapeRecord.name_bare, ShapeRecord.span_bare,
      Deprecation.ofTraits?_uniform, LineIndex.locate_uniform]
  | some shape =>
    simp only [Option.map_some, resolveSignature_bare, traitsOf_bare, ShapeRecord.name_bare,
      ShapeRecord.span_bare, Deprecation.ofTraits?_uniform, LineIndex.locate_uniform]

/-! ## Services -/

/-- A listed operation is found as its bare record. -/
theorem resolveListing_bare (service : String) (element : NodeValue) :
    index.bare.resolveListing service element.bare =
      Option.map ShapeRecord.bare <$> index.resolveListing service element := by
  unfold resolveListing
  rw [Value.ofNode_bare, map_bind]
  refine bind_congr fun value => ?_
  cases operationId? value with
  | none => rfl
  | some id =>
    simp only [find?_bare, View.span_bare]
    cases index.find? .operation id <;> rfl

theorem resolveListings_bare (service : String) (body : NodeObject) :
    index.bare.resolveListings service body.bare =
      List.map ShapeRecord.bare <$> index.resolveListings service body := by
  unfold resolveListings
  rw [NodeObject.get?_bare, read_bind_of_map, map_bind]
  refine bind_congr fun listing => ?_
  cases listing with
  | none => rfl
  | some listing =>
    simp only [Option.map_some, NodeValue.content_bare]
    rw [read_bind_of_map, map_bind]
    refine bind_congr fun content => ?_
    rw [NodeValueKind.form_bare]
    cases NodeValueKind.form content with
    | array elements =>
      simp only [NodeValue.Form.bare, NodeArray.values]
      rw [View.many_bare (by decide), Reporting.mapM_map_eq (resolveListing_bare index service),
        bind_map_left, map_bind]
      refine bind_congr fun records => ?_
      rw [List.filterMap_map, map_pure, List.map_filterMap]
      rfl
    | object | number | keyword | string => rfl

theorem versionOf_bare (body : NodeObject) : versionOf body.bare = versionOf body := by
  unfold versionOf
  rw [NodeObject.get?_bare, bind_of_map]
  refine bind_congr fun found => ?_
  cases found with
  | none => rfl
  | some value => simp only [Option.map_some, Value.ofNode_bare]

theorem bindings_bare (operations : List ShapeRecord) :
    index.bare.bindings (operations.map ShapeRecord.bare) = index.bindings operations := by
  unfold bindings
  rw [List.filterMap_map]
  rfl

theorem resolveBody_bare (service : String) (shape : EntityShape) :
    index.bare.resolveBody service shape.bare =
      Prod.map (List.map ShapeRecord.bare) id <$> index.resolveBody service shape := by
  unfold resolveBody EntityShape.body
  rw [View.required_bare (by decide), read_bind_of_map, map_bind]
  refine bind_congr fun body => ?_
  rw [resolveListings_bare, versionOf_bare, bind_map_left, map_bind]
  refine bind_congr fun operations => ?_
  rw [map_bind]
  rfl

theorem HttpPaths.add_uniform (paths : HttpPaths) (lines : LineIndex) (defaultCode : Nat)
    (operation : String) (binding : HttpBinding) :
    HttpPaths.add paths lines.uniform defaultCode operation binding =
      HttpPaths.add paths lines defaultCode operation binding := by
  simp only [HttpPaths.add, LineIndex.locate_uniform]

/-- An interface is resolved alike, header included. -/
theorem resolveService_bare (options : Options) (record : ShapeRecord) :
    index.bare.resolveService lines.uniform options record.bare =
      index.resolveService lines options record := by
  have methods : index.bare.resolveMethod lines.uniform ∘ ShapeRecord.bare =
      index.resolveMethod lines := funext (resolveMethod_bare index lines)
  unfold resolveService
  rw [ShapeRecord.entity?_bare]
  cases record.entity? with
  | none =>
    simp only [Option.map_none, pure_bind, bindings, List.filterMap_nil, List.flatMap_nil,
      List.foldl_nil, List.mapM_nil, titleOf?, traitsOf_bare, ShapeRecord.name_bare,
      ShapeRecord.span_bare, LineIndex.locate_uniform]
  | some shape =>
    simp only [Option.map_some, resolveBody_bare, bind_map_left, Prod.map_fst, Prod.map_snd, id,
      bindings_bare, HttpPaths.add_uniform, List.mapM_map, methods, titleOf?, traitsOf_bare,
      ShapeRecord.name_bare, ShapeRecord.span_bare, LineIndex.locate_uniform]

theorem reportApply_bare (statement : ApplyStatement) :
    reportApply statement.bare = reportApply statement := by
  unfold reportApply ApplyStatement.target
  rw [View.required_word (by decide) (by decide), View.span_bare]

/-! ## Documents -/

/-- The model of a bare index is that of the index. -/
theorem resolveModel_bare (path : String) (options : Options) :
    index.bare.resolveModel lines.uniform path options =
      index.resolveModel lines path options := by
  unfold resolveModel
  rw [records_bare, records_bare, records_bare]
  simp only [namespaceName_bare, applies_bare, List.mapM_map, Function.comp_def,
    resolveService_bare, resolveStructure_bare, resolveEnum_bare, reportApply_bare]

/-- The resolution of the bare index is that of the index. -/
theorem resolve_bare (path : String) (options : Options) :
    index.bare.resolve lines.uniform path options = index.resolve lines path options := by
  unfold resolve
  rw [resolveModel_bare]
  simp only [Log.insertReports, Diagnostic.ofReport, Diagnostic.located,
    LineIndex.locate_uniform]

end ShapeIndex

theorem Idl.ofTree_bare (tree : Tree) : Idl.ofTree tree.bare = (Idl.ofTree tree).map View.bare := by
  unfold Idl.ofTree
  rw [View.of?_bare, Tree.kind_bare, Tree.span_bare]
  cases View.of? .idl tree <;> rfl

/-- The resolution of a bare tree, with the lines of the uniform text, is that of the tree. -/
theorem resolve_tree_bare (tree : Tree) (lines : LineIndex) (path : String) (options : Options) :
    (do (← ShapeIndex.ofIdl (← Idl.ofTree tree.bare)).resolve lines.uniform path options) =
      (do (← ShapeIndex.ofIdl (← Idl.ofTree tree)).resolve lines path options) := by
  simp only [Idl.ofTree_bare, ShapeIndex.ofIdl_bare, bind_of_map, ShapeIndex.resolve_bare]

end ServiceIdl
