import ServiceIdl.Proofs.Shape.Indexed
import ServiceIdl.Resolve.Document

/-!
# Every text has a resolution

No text makes a resolution end early. A text that is no document has the resolution
of its rejection. The events of a document make a tree; whatever is read off the
tree on the way to its index and its model is a part of the document, and no
reading of a part has a defect (`resolve_never_faults`).
-/

namespace ServiceIdl

open Outcome (Gives Succeeds)

/-! ## Computations with reports -/

namespace Reporting

variable {α β : Type} {holds : α → Prop} {holdsNext : β → Prop}

/-- The computation has no defect, and a value of which `holds` holds. -/
def Gives (computation : Reporting α) (holds : α → Prop) : Prop :=
  ∃ a reports, computation = .ok (a, reports) ∧ holds a

/-- The computation has no defect. -/
abbrev Succeeds (computation : Reporting α) : Prop := Gives computation fun _ => True

namespace Gives

theorem noting {a : α} {reports : List Report} (known : holds a) :
    Gives (noting a reports) holds :=
  ⟨a, reports, rfl, known⟩

theorem pure {a : α} (known : holds a) : Gives (pure a) holds := ⟨a, [], rfl, known⟩

theorem lift {read : Except Defect α} (gives : Outcome.Gives read holds) :
    Gives (liftM read) holds := by
  rcases gives with ⟨a, success, known⟩
  rw [success]
  exact .pure known

theorem required {text : List Char} {c d : Category} {v : View c} (part : v.tree.IsPart text)
    (guaranteed : c.guarantees d = true) :
    Gives (liftM (v.required d)) fun child => child.tree.IsPart text :=
  lift (View.gives_required part guaranteed)

/-- What the first step gives is what the next one may rely on. -/
theorem bind {first : Reporting α} {next : α → Reporting β} (gives : Gives first holds)
    (rest : ∀ a, holds a → Gives (next a) holdsNext) : Gives (first >>= next) holdsNext := by
  rcases gives with ⟨a, earlier, success, known⟩
  obtain ⟨b, later, success', known'⟩ := rest a known
  exact ⟨b, earlier ++ later, bind_eq_ok_iff.mpr ⟨a, earlier, later, success, success', rfl⟩,
    known'⟩

theorem mono {computation : Reporting α} {weaker : α → Prop} (gives : Gives computation holds)
    (implies : ∀ a, holds a → weaker a) : Gives computation weaker := by
  rcases gives with ⟨a, reports, success, known⟩
  exact ⟨a, reports, success, implies a known⟩

/-- Steps over the elements, each of which gives the property. -/
theorem mapM {f : α → Reporting β} {as : List α} (each : ∀ a ∈ as, Gives (f a) holdsNext) :
    Gives (as.mapM f) fun bs => ∀ b ∈ bs, holdsNext b := by
  induction as with
  | nil => exact .pure (by simp)
  | cons a as ih =>
    rw [List.mapM_cons]
    refine (each a List.mem_cons_self).bind fun b head => ?_
    refine (ih fun a' later => each a' (List.mem_cons_of_mem a later)).bind fun bs tail => ?_
    refine .pure ?_
    intro b' member
    rcases List.mem_cons.mp member with rfl | later
    · exact head
    · exact tail b' later

end Gives

namespace Succeeds

/-- A first step of whose value nothing needs to be known. -/
theorem bind {first : Reporting α} {next : α → Reporting β} (succeeds : Succeeds first)
    (rest : ∀ a, Gives (next a) holdsNext) : Gives (first >>= next) holdsNext :=
  Gives.bind succeeds fun a _ => rest a

theorem mapM {f : α → Reporting β} {as : List α} (each : ∀ a ∈ as, Succeeds (f a)) :
    Succeeds (as.mapM f) :=
  (Gives.mapM each).mono fun _ _ => trivial

end Succeeds

end Reporting

variable {text : List Char} {index : ShapeIndex}

/-! ## Types -/

/-- A keyword has a scalar, if need be that of strings. -/
theorem succeeds_scalarOfKeyword (keyword : String) (span : Span) :
    Reporting.Succeeds (scalarOfKeyword keyword span) := by
  unfold scalarOfKeyword
  split
  · exact .pure trivial
  · exact .noting trivial

namespace ShapeIndex

theorem succeeds_resolveAlias {shape : ShapeRecord} (declared : shape.IsDeclaredIn text) :
    Reporting.Succeeds (index.resolveAlias shape) := by
  unfold resolveAlias
  cases form : shape.simple? with
  | none => exact .pure trivial
  | some decl =>
    have part := ShapeDecl.isPart_of_form declared.part (ShapeRecord.simple?_eq_some_iff.mp form)
    refine (Reporting.Gives.required part (by decide)).bind fun keyword _ => ?_
    exact (succeeds_scalarOfKeyword _ _).bind fun _ => .pure trivial

/-- What an id means says something about the id. -/
theorem typeRef_spec (index : ShapeIndex) (id : String) :
    match index.typeRef id with
    | .keyword word => Scalar.isKeyword word = true
    | .alias shape => index.find? .simple id = some shape
    | .wrapper _ | .expectedPrimitive _ | .named _ => True := by
  unfold typeRef
  cases keyword : Scalar.isKeyword id with
  | true => exact keyword
  | false =>
    cases Scalar.ofWrapper? id with
    | some scalar => exact trivial
    | none =>
      cases simple : index.find? .simple id with
      | some shape => exact rfl
      | none => cases primitive : Scalar.isExpectedPrimitive id <;> exact trivial

theorem succeeds_resolveTypeRef (holds : index.IsOf text) (id : String) (span : Span) :
    Reporting.Succeeds (index.resolveTypeRef id span) := by
  have spec := index.typeRef_spec id
  unfold resolveTypeRef
  cases ref : index.typeRef id with
  | keyword word => exact (succeeds_scalarOfKeyword word span).bind fun _ => .pure trivial
  | wrapper scalar => exact .pure trivial
  | «alias» shape =>
    rw [ref] at spec
    have member := mem_records_of_find? spec
    exact succeeds_resolveAlias (holds.isDeclaredIn member).1
  | expectedPrimitive => exact .noting trivial
  | named => exact .pure trivial

/-! ## Members -/

/-- An explicit member of the document has a target. -/
theorem succeeds_explicitTarget? (name : String) {member : ShapeMember}
    (part : member.tree.IsPart text) : Succeeds (ShapeMember.explicitTarget? name member) := by
  refine (View.gives_required part (by decide)).bind fun decl partDecl => ?_
  rw [← MemberDecl.tree_form] at partDecl
  cases form : MemberDecl.form decl with
  | elided => exact .pure trivial
  | explicit decl =>
    rw [form] at partDecl
    refine (View.gives_required partDecl (by decide)).bind fun own _ => ?_
    split
    · refine (View.gives_required partDecl (by decide)).bind fun target _ => ?_
      refine (View.gives_required part (by decide)).bind fun traits partTraits => ?_
      exact (Trait.succeeds_ofStatements partTraits).bind fun _ => .pure trivial
    · exact .pure trivial

theorem succeeds_mixinMember? (holds : index.IsOf text) (name : String) (mixin : ShapeId) :
    Succeeds (index.mixinMember? name mixin) := by
  unfold mixinMember?
  cases form : (index.lookup? mixin.text).bind ShapeRecord.aggregate? with
  | none => exact .ok trivial
  | some shape =>
    obtain ⟨record, found, aggregate⟩ := Option.bind_eq_some_iff.mp form
    have declared := holds.isDeclaredIn_of_lookup? found
    have part :=
      ShapeDecl.isPart_of_form declared.part (ShapeRecord.aggregate?_eq_some_iff.mp aggregate)
    refine (View.gives_required part (by decide)).bind fun members partMembers => ?_
    refine Succeeds.findSomeM? fun member present => ?_
    exact succeeds_explicitTarget? name (View.isPart_of_mem_many partMembers present)

/-- A member of the document has a target or finds none. -/
theorem succeeds_memberTarget? (holds : index.IsOf text) (mixins : Option Mixins)
    {decl : MemberDecl} (part : decl.tree.IsPart text) :
    Succeeds (index.memberTarget? mixins decl) := by
  unfold memberTarget?
  rw [← MemberDecl.tree_form] at part
  cases form : MemberDecl.form decl with
  | explicit member =>
    rw [form] at part
    exact (View.gives_required part (by decide)).bind fun _ _ => .pure trivial
  | elided member =>
    rw [form] at part
    refine (View.gives_required part (by decide)).bind fun name _ => ?_
    cases mixins with
    | none => exact .pure trivial
    | some mixins => exact Succeeds.findSomeM? fun mixin _ => succeeds_mixinMember? holds _ mixin

theorem succeeds_resolveElement (holds : index.IsOf text) (shape : AggregateShape)
    {element : ShapeMember} (part : element.tree.IsPart text) :
    Reporting.Succeeds (index.resolveElement shape element) := by
  unfold resolveElement
  refine (Reporting.Gives.required part (by decide)).bind fun decl partDecl => ?_
  refine (Reporting.Gives.required part (by decide)).bind fun statements partTraits => ?_
  refine (Reporting.Gives.lift (Trait.succeeds_ofStatements partTraits)).bind fun own _ => ?_
  refine (Reporting.Gives.lift (succeeds_memberTarget? holds _ partDecl)).bind fun target _ => ?_
  cases target with
  | none =>
    refine (Reporting.Gives.required partDecl (by decide)).bind fun name _ => ?_
    exact Reporting.Succeeds.bind (.noting trivial) fun _ => .pure trivial
  | some target =>
    exact (succeeds_resolveTypeRef holds _ _).bind fun _ => .pure trivial

/-- A list of the document resolves, whether it has a member or not. -/
theorem succeeds_resolveList (holds : index.IsOf text) {list : ShapeRecord}
    (declared : list.IsDeclaredIn text) : Reporting.Succeeds (index.resolveList list) := by
  unfold resolveList
  cases form : list.aggregate? with
  | none => exact .pure trivial
  | some shape =>
    have part :=
      ShapeDecl.isPart_of_form declared.part (ShapeRecord.aggregate?_eq_some_iff.mp form)
    refine (Reporting.Gives.required part (by decide)).bind fun members partMembers => ?_
    cases elements : ShapeMembers.members members with
    | nil => exact Reporting.Succeeds.bind (.noting trivial) fun _ => .pure trivial
    | cons element rest =>
      have first : element ∈ ShapeMembers.members members := by
        rw [elements]
        exact List.mem_cons_self
      have partElement := View.isPart_of_mem_many partMembers first
      exact (succeeds_resolveElement holds shape partElement).bind fun _ => .pure trivial

/-- An id that means a list is the id of one. -/
theorem find?_of_listRef? {id : String} {list : ShapeRecord}
    (ref : index.listRef? id = some list) : index.find? .list id = some list := by
  unfold listRef? at ref
  split at ref
  · cases ref
  · exact ref

theorem succeeds_resolveTarget (holds : index.IsOf text) (id : String) (span : Span) :
    Reporting.Succeeds (index.resolveTarget id span) := by
  unfold resolveTarget
  cases ref : index.listRef? id with
  | none => exact succeeds_resolveTypeRef holds id span
  | some list =>
    have found := mem_records_of_find? (find?_of_listRef? ref)
    exact succeeds_resolveList holds (holds.isDeclaredIn found).1

theorem succeeds_resolveMember (holds : index.IsOf text) (lines : LineIndex)
    (mixins : Option Mixins) {member : ShapeMember} (part : member.tree.IsPart text) :
    Reporting.Succeeds (index.resolveMember lines mixins member) := by
  unfold resolveMember
  refine (Reporting.Gives.required part (by decide)).bind fun decl partDecl => ?_
  refine (Reporting.Gives.required partDecl (by decide)).bind fun name _ => ?_
  refine (Reporting.Gives.required part (by decide)).bind fun statements partTraits => ?_
  refine (Reporting.Gives.lift (Trait.succeeds_ofStatements partTraits)).bind fun own _ => ?_
  refine Reporting.Succeeds.bind ?_ fun resolved => .noting trivial
  refine (Reporting.Gives.lift (succeeds_memberTarget? holds _ partDecl)).bind fun target _ => ?_
  cases target with
  | none => exact .noting trivial
  | some target => exact (succeeds_resolveTarget holds _ _).bind fun _ => .pure trivial

theorem succeeds_resolveMembers (holds : index.IsOf text) (lines : LineIndex)
    {record : ShapeRecord} (declared : record.IsDeclaredIn text) :
    Reporting.Succeeds (index.resolveMembers lines record) := by
  unfold resolveMembers
  cases form : record.aggregate? with
  | none => exact .pure trivial
  | some shape =>
    have part :=
      ShapeDecl.isPart_of_form declared.part (ShapeRecord.aggregate?_eq_some_iff.mp form)
    refine (Reporting.Gives.required part (by decide)).bind fun members partMembers => ?_
    apply Reporting.Succeeds.mapM
    intro member present
    have partMember := View.isPart_of_mem_many partMembers present
    exact succeeds_resolveMember holds lines _ partMember

theorem succeeds_resolveStructure (holds : index.IsOf text) (lines : LineIndex)
    {record : ShapeRecord} (declared : record.IsDeclaredIn text) :
    Reporting.Succeeds (index.resolveStructure lines record) :=
  (succeeds_resolveMembers holds lines declared).bind fun _ => .pure trivial

end ShapeIndex

/-! ## Enumerations -/

theorem EnumValue.succeeds_literalOf? {member : EnumShapeMember}
    (part : member.tree.IsPart text) : Succeeds (EnumValue.literalOf? member) := by
  unfold EnumValue.literalOf?
  cases found : EnumShapeMember.value member with
  | none => exact .ok trivial
  | some assignment =>
    have partAssignment := View.isPart_of_optional part found
    refine (View.gives_required partAssignment (by decide)).bind fun value partValue => ?_
    exact (Value.succeeds_ofNode value partValue).bind fun _ => .pure trivial

theorem EnumValue.succeeds_ofMember (lines : LineIndex) {member : EnumShapeMember}
    (part : member.tree.IsPart text) : Succeeds (EnumValue.ofMember lines member) := by
  unfold EnumValue.ofMember
  refine (View.gives_required part (by decide)).bind fun statements partTraits => ?_
  refine (Trait.succeeds_ofStatements partTraits).bind fun traits => ?_
  refine (EnumValue.succeeds_literalOf? part).bind fun value => ?_
  exact (View.gives_required part (by decide)).bind fun _ _ => .pure trivial

namespace ShapeIndex

theorem succeeds_resolveEnum (lines : LineIndex) {record : ShapeRecord}
    (declared : record.IsDeclaredIn text) : Succeeds (index.resolveEnum lines record) := by
  unfold resolveEnum
  cases form : record.enum? with
  | none => exact .pure trivial
  | some shape =>
    have part := ShapeDecl.isPart_of_form declared.part (ShapeRecord.enum?_eq_some_iff.mp form)
    refine Succeeds.bind ?_ fun _ => .pure trivial
    unfold resolveEnumShape
    refine (View.gives_required part (by decide)).bind fun typeName _ => ?_
    refine (View.gives_required part (by decide)).bind fun members partMembers => ?_
    refine (Succeeds.mapM ?_).bind fun _ => .pure trivial
    intro member present
    have partMember := View.isPart_of_mem_many partMembers present
    exact EnumValue.succeeds_ofMember lines partMember

/-! ## Operations -/

theorem succeeds_resolveInput (holds : index.IsOf text) (lines : LineIndex) (operation : String)
    {input : OperationInput} (part : input.tree.IsPart text) :
    Reporting.Succeeds (index.resolveInput lines operation input) := by
  unfold resolveInput
  refine (Reporting.Gives.required part (by decide)).bind fun target _ => ?_
  cases OperationTarget.form target with
  | inline shape => exact .noting trivial
  | named id =>
    simp only
    cases found : index.find? .structureShape id.text with
    | none => exact .pure trivial
    | some record =>
      have declared := (holds.isDeclaredIn (mem_records_of_find? found)).1
      exact succeeds_resolveMembers holds lines declared

theorem succeeds_resolveOutput (lines : LineIndex) (operation : String)
    {output : OperationOutput} (part : output.tree.IsPart text) :
    Reporting.Succeeds (index.resolveOutput lines operation output) := by
  unfold resolveOutput
  refine (Reporting.Gives.required part (by decide)).bind fun target _ => ?_
  cases OperationTarget.form target with
  | inline shape => exact .noting trivial
  | named id =>
    refine (Reporting.Gives.required part (by decide)).bind fun statements partTraits => ?_
    refine (Reporting.Gives.lift (Trait.succeeds_ofStatements partTraits)).bind fun own _ => ?_
    cases index.find? .structureShape id.text with
    | none => exact .noting trivial
    | some record => exact .noting trivial

theorem succeeds_resolveParameters (holds : index.IsOf text) (lines : LineIndex)
    (operation : String) {body : OperationBody} (part : body.tree.IsPart text) :
    Reporting.Succeeds (index.resolveParameters lines operation body) := by
  unfold resolveParameters
  cases found : OperationBody.input body with
  | none => exact .pure trivial
  | some input =>
    have partInput := View.isPart_of_optional part found
    exact succeeds_resolveInput holds lines operation partInput

theorem succeeds_resolveReturnType (lines : LineIndex) (operation : String)
    {body : OperationBody} (part : body.tree.IsPart text) :
    Reporting.Succeeds (index.resolveReturnType lines operation body) := by
  unfold resolveReturnType
  cases found : OperationBody.output body with
  | none => exact .pure trivial
  | some output =>
    have partOutput := View.isPart_of_optional part found
    exact succeeds_resolveOutput lines operation partOutput

theorem succeeds_resolveSignature (holds : index.IsOf text) (lines : LineIndex)
    (operation : String) {shape : OperationShape} (part : shape.tree.IsPart text) :
    Reporting.Succeeds (index.resolveSignature lines operation shape) := by
  unfold resolveSignature
  refine (Reporting.Gives.required part (by decide)).bind fun body partBody => ?_
  refine (succeeds_resolveParameters holds lines operation partBody).bind fun _ => ?_
  exact (succeeds_resolveReturnType lines operation partBody).bind fun _ => .pure trivial

theorem succeeds_resolveMethod (holds : index.IsOf text) (lines : LineIndex)
    {record : ShapeRecord} (declared : record.IsDeclaredIn text) :
    Reporting.Succeeds (index.resolveMethod lines record) := by
  unfold resolveMethod
  cases form : record.operation? with
  | none => exact .pure trivial
  | some shape =>
    have part :=
      ShapeDecl.isPart_of_form declared.part (ShapeRecord.operation?_eq_some_iff.mp form)
    exact (succeeds_resolveSignature holds lines record.name part).bind fun _ => .pure trivial

end ShapeIndex

/-! ## Services -/

/-- The last value with a key is a part, if there is one. -/
theorem NodeObject.gives_get? {object : NodeObject} (part : object.tree.IsPart text)
    (key : String) :
    Gives (NodeObject.get? object key) fun found =>
      ∀ value, found = some value → value.tree.IsPart text := by
  refine Gives.foldlM (by simp) ?_
  intro found known entry member
  have partEntry := View.isPart_of_mem_many part member
  refine (View.gives_required partEntry (by decide)).bind fun written partKey => ?_
  refine (NodeObjectKey.succeeds_name partKey).bind fun name => ?_
  split
  · refine (View.gives_required partEntry (by decide)).bind fun value partValue => .pure ?_
    intro other same
    cases same
    exact partValue
  · exact .pure known

namespace ShapeIndex

/-- A listed element resolves, and an operation that it names is declared in the text. -/
theorem gives_resolveListing (holds : index.IsOf text) (service : String) {element : NodeValue}
    (part : element.tree.IsPart text) :
    Reporting.Gives (index.resolveListing service element) fun found =>
      ∀ record, found = some record → record.IsDeclaredIn text := by
  unfold resolveListing
  refine (Reporting.Gives.lift (Value.succeeds_ofNode element part)).bind fun value _ => ?_
  cases operationId? value with
  | none => exact .pure (by simp)
  | some id =>
    simp only
    cases found : index.find? .operation id with
    | none => exact .noting (by simp)
    | some record =>
      have declared := (holds.isDeclaredIn (mem_records_of_find? found)).1
      refine .pure ?_
      intro other same
      cases same
      exact declared

theorem gives_resolveListings (holds : index.IsOf text) (service : String) {body : NodeObject}
    (part : body.tree.IsPart text) :
    Reporting.Gives (index.resolveListings service body) fun records =>
      ∀ record ∈ records, record.IsDeclaredIn text := by
  unfold resolveListings
  refine (Reporting.Gives.lift (NodeObject.gives_get? part "operations")).bind
    fun found known => ?_
  cases found with
  | none => exact .pure (by simp)
  | some listing =>
    refine (Reporting.Gives.required (known listing rfl) (by decide)).bind
      fun content partContent => ?_
    rw [← NodeValueKind.tree_form] at partContent
    cases form : NodeValueKind.form content with
    | array elements =>
      rw [form] at partContent
      have listed : ∀ element ∈ NodeArray.values elements,
          Reporting.Gives (index.resolveListing service element) fun found =>
            ∀ record, found = some record → record.IsDeclaredIn text := by
        intro element member
        have partElement := View.isPart_of_mem_many partContent member
        exact gives_resolveListing holds service partElement
      refine (Reporting.Gives.mapM listed).bind fun records each => .pure ?_
      intro record member
      obtain ⟨found, present, same⟩ := List.mem_filterMap.mp member
      exact each found present record same
    | object | number | keyword | string => exact .pure (by simp)

theorem succeeds_versionOf {body : NodeObject} (part : body.tree.IsPart text) :
    Succeeds (versionOf body) := by
  refine (NodeObject.gives_get? part "version").bind fun found known => ?_
  cases found with
  | none => exact .pure trivial
  | some value =>
    have partValue := known value rfl
    exact (Value.succeeds_ofNode value partValue).bind fun _ => .pure trivial

theorem gives_resolveBody (holds : index.IsOf text) (service : String) {shape : EntityShape}
    (part : shape.tree.IsPart text) :
    Reporting.Gives (index.resolveBody service shape) fun (operations, _) =>
      ∀ record ∈ operations, record.IsDeclaredIn text := by
  unfold resolveBody
  refine (Reporting.Gives.required part (by decide)).bind fun body partBody => ?_
  refine (gives_resolveListings holds service partBody).bind fun operations each => ?_
  exact (Reporting.Gives.lift (succeeds_versionOf partBody)).bind fun _ _ => .pure each

theorem succeeds_resolveService (holds : index.IsOf text) (lines : LineIndex)
    (options : Options) {record : ShapeRecord} (declared : record.IsDeclaredIn text) :
    Reporting.Succeeds (index.resolveService lines options record) := by
  unfold resolveService
  simp only
  have methods : ∀ (operations : List ShapeRecord),
      (∀ record ∈ operations, record.IsDeclaredIn text) →
      Reporting.Succeeds (operations.mapM (index.resolveMethod lines)) := by
    intro operations each
    apply Reporting.Succeeds.mapM
    intro record member
    exact succeeds_resolveMethod holds lines (each record member)
  cases form : record.entity? with
  | none => exact .pure trivial
  | some shape =>
    have part := ShapeDecl.isPart_of_form declared.part (ShapeRecord.entity?_eq_some_iff.mp form)
    refine (gives_resolveBody holds record.name part).bind fun (operations, version) each => ?_
    refine Reporting.Succeeds.bind (.noting trivial) fun _ => ?_
    exact (methods operations each).bind fun _ => .pure trivial

/-! ## Documents -/

theorem succeeds_reportApply {statement : ApplyStatement} (part : statement.tree.IsPart text) :
    Reporting.Succeeds (reportApply statement) :=
  (Reporting.Gives.required part (by decide)).bind fun _ _ => .noting trivial

/-- Every index of a document has a model. -/
theorem succeeds_resolveModel (holds : index.IsOf text) (lines : LineIndex) (path : String)
    (options : Options) : Reporting.Succeeds (index.resolveModel lines path options) := by
  have services : Reporting.Succeeds
      ((index.records .service).mapM (index.resolveService lines options)) := by
    apply Reporting.Succeeds.mapM
    intro record member
    have declared := (holds.isDeclaredIn member).1
    exact succeeds_resolveService holds lines options declared
  have types : Reporting.Succeeds
      ((index.records .structureShape).mapM (index.resolveStructure lines)) := by
    apply Reporting.Succeeds.mapM
    intro record member
    have declared := (holds.isDeclaredIn member).1
    exact succeeds_resolveStructure holds lines declared
  have applies : Reporting.Succeeds (index.applies.mapM reportApply) := by
    apply Reporting.Succeeds.mapM
    intro statement member
    have part := holds.applies statement member
    exact succeeds_reportApply part
  unfold resolveModel
  refine services.bind fun _ => types.bind fun _ => ?_
  refine (Reporting.Succeeds.mapM ?_).bind fun enums => ?_
  · intro record member
    have declared := (holds.isDeclaredIn member).1
    exact .lift (succeeds_resolveEnum lines declared)
  · exact applies.bind fun _ => .pure trivial

end ShapeIndex

/-- The tree of a document has an index, and the index has a model. -/
theorem exists_index_of_isDocument {tree : Tree} (document : tree.IsDocument text) :
    ∃ idl index, Idl.ofTree tree = .ok idl ∧ ShapeIndex.ofIdl idl = .ok index ∧
      index.IsOf text := by
  have accepted : tree.kind ∈ Category.idl.kinds := List.mem_singleton.mpr document.kind
  obtain ⟨index, indexed, holds⟩ :=
    ShapeIndex.gives_ofIdl (show Tree.IsPart text (⟨tree, accepted⟩ : Idl).tree from
      document.isPart)
  exact ⟨⟨tree, accepted⟩, index, Idl.ofTree_eq_ok_iff.mpr rfl, indexed, holds⟩

/-- The root and the index of a text, if it is a document. -/
def indexed? (text : String) : Option (Idl × ShapeIndex) :=
  ((documentTree text).toOption.bind Except.toOption).bind fun tree =>
    (do
      let idl ← Idl.ofTree tree
      return (idl, ← ShapeIndex.ofIdl idl)).toOption

/-- What has an index is a document. -/
theorem exists_events_of_indexed? {text : String} {idl : Idl} {index : ShapeIndex}
    (found : indexed? text = some (idl, index)) :
    ∃ events tree, documentEvents text = .ok events ∧ documentTree text = .ok (.ok tree) ∧
      Idl.ofTree tree = .ok idl ∧ ShapeIndex.ofIdl idl = .ok index ∧ index.IsOf text.toList := by
  obtain ⟨tree, made, read⟩ := Option.bind_eq_some_iff.mp found
  obtain ⟨outcome, success, accepted⟩ := Option.bind_eq_some_iff.mp made
  cases Outcome.eq_ok_of_toOption accepted
  have made := Outcome.eq_ok_of_toOption success
  obtain ⟨idl', root, read⟩ := Outcome.bind_eq_ok_iff.mp (Outcome.eq_ok_of_toOption read)
  obtain ⟨index', indexed, read⟩ := Outcome.bind_eq_ok_iff.mp read
  cases read
  obtain ⟨events, accepted, document⟩ := exists_events_of_documentTree made
  obtain ⟨idl', index', root', indexed', holds⟩ := exists_index_of_isDocument document
  cases root.symm.trans root'
  cases indexed.symm.trans indexed'
  exact ⟨events, tree, accepted, made, root, indexed, holds⟩

/-- Only a document has a model with anything in it. -/
theorem exists_events_of_model {text path : String} {options : Options} {resolution : Resolution}
    (resolved : resolve text path options = .ok resolution)
    (some : resolution.model.types ≠ [] ∨ resolution.model.interfaces ≠ []) :
    ∃ events, documentEvents text = .ok events := by
  cases accepted : documentEvents text with
  | ok events => exact ⟨events, rfl⟩
  | error rejection =>
    unfold resolve documentTree at resolved
    rw [accepted] at resolved
    cases resolved
    rcases some with types | interfaces
    · exact absurd rfl types
    · exact absurd rfl interfaces

theorem exists_events_of_types {text path : String} {options : Options} {resolution : Resolution}
    (resolved : resolve text path options = .ok resolution)
    (some : resolution.model.types ≠ []) : ∃ events, documentEvents text = .ok events :=
  exists_events_of_model resolved (.inl some)

/-- The resolution of a document is the model of its index, with the reports kept
in a log. -/
theorem resolve_eq {source path : String} {options : Options} {tree : Tree} {idl : Idl}
    {model : ServiceModel} {reports : List Report}
    (made : documentTree source = .ok (.ok tree)) (root : Idl.ofTree tree = .ok idl)
    (indexed : ShapeIndex.ofIdl idl = .ok index)
    (resolved : index.resolveModel (.ofText source) path options = .ok (model, reports)) :
    resolve source path options = .ok
      { model
        diagnostics := (Log.empty.insertReports path (.ofText source) reports).entries } := by
  unfold resolve
  rw [made]
  simp only [root, indexed, bind, Except.bind]
  rw [ShapeIndex.resolve, resolved]
  rfl

/-- A text that is accepted has an index, and its resolution has the model of the index. -/
theorem exists_model_of_accepted {source : String} {events : List Event}
    (accepted : documentEvents source = .ok events) (path : String) (options : Options) :
    ∃ tree idl index model reports, documentTree source = .ok (.ok tree) ∧
      tree.IsDocument source.toList ∧ Idl.ofTree tree = .ok idl ∧
      ShapeIndex.ofIdl idl = .ok index ∧ index.IsOf source.toList ∧
      index.resolveModel (.ofText source) path options = .ok (model, reports) ∧
      resolve source path options = .ok
        { model
          diagnostics := (Log.empty.insertReports path (.ofText source) reports).entries } := by
  obtain ⟨tree, made, document⟩ := exists_documentTree accepted
  obtain ⟨idl, index, root, indexed, holds⟩ := exists_index_of_isDocument document
  obtain ⟨model, reports, resolved, -⟩ :=
    ShapeIndex.succeeds_resolveModel holds (.ofText source) path options
  exact ⟨tree, idl, index, model, reports, made, document, root, indexed, holds, resolved,
    resolve_eq made root indexed resolved⟩

/-- A text that is rejected has the empty model, and its one diagnostic says so. -/
theorem resolve_of_rejected {source : String} {rejection : Rejection}
    (rejected : documentEvents source = .error rejection) (path : String) (options : Options) :
    resolve source path options =
      .ok (.ofRejection (.ofText source) path options rejection) := by
  unfold resolve documentTree
  rw [rejected]

/-- Every text has a resolution, whatever it is called and whatever the options are. -/
theorem resolve_never_faults (text path : String) (options : Options) :
    ∃ resolution, resolve text path options = .ok resolution := by
  cases events : documentEvents text with
  | error rejection =>
    unfold resolve documentTree
    rw [events]
    exact ⟨_, rfl⟩
  | ok events =>
    obtain ⟨tree, made, document⟩ := exists_documentTree events
    obtain ⟨idl, index, root, indexed, holds⟩ := exists_index_of_isDocument document
    obtain ⟨model, reports, resolved, -⟩ :=
      ShapeIndex.succeeds_resolveModel holds (.ofText text) path options
    exact ⟨_, resolve_eq made root indexed resolved⟩

end ServiceIdl
