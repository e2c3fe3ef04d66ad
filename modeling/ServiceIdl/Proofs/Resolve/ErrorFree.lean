import ServiceIdl.Proofs.Resolve.Quiet
import ServiceIdl.Proofs.Resolve.Success
import ServiceIdl.Proofs.Resolve.Targets

/-!
# Resolutions without errors

A document resolves without an error exactly if it is sound. For each function on
the way there is a condition under which its reports are quiet; the conditions of the
parts make up the condition of the whole. Input structures are resolved as parameters
and again as types, so what is wrong with them is reported twice and kept once.
-/

namespace ServiceIdl

open Reporting (QuietIff)

variable {text : List Char} {index : ShapeIndex}

/-! ## Types -/

/-- The one keyword without a scalar. -/
theorem Scalar.ofKeyword?_eq_none_iff {keyword : String}
    (known : Scalar.isKeyword keyword = true) :
    Scalar.ofKeyword? keyword = none ↔ keyword = "document" := by
  have checked : ∀ word ∈ Rule.simpleTypeWords,
      (Scalar.ofKeyword? word = none ↔ word = "document") := by
    decide
  exact checked keyword (List.contains_iff_mem.mp known)

/-- Of the keywords only `document` has no scalar. -/
theorem quietIff_scalarOfKeyword {keyword : String} (known : Scalar.isKeyword keyword = true)
    (span : Span) : QuietIff (scalarOfKeyword keyword span) (keyword ≠ "document") := by
  have absent := Scalar.ofKeyword?_eq_none_iff known
  unfold scalarOfKeyword
  cases scalar : Scalar.ofKeyword? keyword with
  | none =>
    refine .noting ?_
    rw [quiet_singleton]
    simp [absent.mp scalar, Finding.code, Code.severity]
  | some scalar' =>
    rw [scalar] at absent
    exact QuietIff.pure.congr (by simp [← absent])

/-- A binding is reported on exactly when its verb is unknown. -/
theorem HttpBinding.quiet_reports_iff (binding : HttpBinding) (operation : String) :
    Quiet (binding.reports operation) ↔ binding.method ∈ HttpVerb.literals := by
  unfold HttpBinding.reports
  cases verb : HttpVerb.ofLiteral? binding.method with
  | none =>
    have unknown := HttpVerb.ofLiteral?_eq_none_iff.mp verb
    simp [unknown, quiet_singleton, Finding.code, Code.severity]
  | some known =>
    have literal : binding.method ∈ HttpVerb.literals := by
      refine Decidable.by_contra fun absent => ?_
      rw [HttpVerb.ofLiteral?_eq_none_iff.mpr absent] at verb
      cases verb
    simp [literal, quiet_nil]

namespace ShapeIndex

/-- A simple shape is quiet when its keyword has a scalar. -/
theorem quietIff_resolveAlias {shape : ShapeRecord} (declared : shape.IsDeclaredIn text)
    (simple : shape.category = .simple) :
    QuietIff (index.resolveAlias shape) shape.IsSoundSimple := by
  obtain ⟨decl, found, part⟩ := declared.exists_simple? simple
  unfold resolveAlias
  rw [found]
  refine QuietIff.read fun keyword read => ?_
  rw [ShapeRecord.isSoundSimple_iff found read]
  have partKeyword := View.isPart_of_required part read
  obtain ⟨_, form⟩ := View.exists_form partKeyword .simpleTypeName rfl
  have known : Scalar.isKeyword (View.text keyword) = true :=
    List.contains_iff_mem.mpr (form.mem_vocabulary (by decide))
  exact (quietIff_scalarOfKeyword known shape.span).thenPure

/-- Whether an element is sound, by what its id refers to. -/
theorem isSoundElement_iff {id : String} :
    index.IsSoundElement id ↔
      match index.typeRef id with
      | .keyword word => word ≠ "document"
      | .alias shape => shape.IsSoundSimple
      | .expectedPrimitive _ => False
      | .wrapper _ | .named _ => True := by
  unfold IsSoundElement typeRef
  cases keyword : Scalar.isKeyword id with
  | true => rfl
  | false =>
    cases wrapper : Scalar.ofWrapper? id with
    | some scalar => simp
    | none =>
      cases simple : index.find? .simple id with
      | some shape => simp
      | none => cases primitive : Scalar.isExpectedPrimitive id <;> simp

/-- A reference is quiet when it is sound as an element. -/
theorem quietIff_resolveTypeRef (holds : index.IsOf text) (id : String) (span : Span) :
    QuietIff (index.resolveTypeRef id span) (index.IsSoundElement id) := by
  have spec := index.typeRef_spec id
  rw [isSoundElement_iff]
  unfold resolveTypeRef
  cases ref : index.typeRef id with
  | keyword word =>
    rw [ref] at spec
    exact (quietIff_scalarOfKeyword spec span).thenPure
  | wrapper scalar => exact .pure
  | «alias» shape =>
    rw [ref] at spec
    obtain ⟨declared, simple⟩ := holds.isDeclaredIn (mem_records_of_find? spec)
    exact quietIff_resolveAlias declared simple
  | expectedPrimitive => exact .noting (by simp [quiet_singleton, Finding.code, Code.severity])
  | named => exact .pure

/-! ## Members -/

/-- An element is quiet when it has a target that is sound. -/
theorem quietIff_resolveElement (holds : index.IsOf text) (shape : AggregateShape)
    {element : ShapeMember} (part : element.tree.IsPart text) :
    QuietIff (index.resolveElement shape element)
      (∃ id, index.HasTarget shape element id ∧ index.IsSoundElement id) := by
  refine QuietIff.read fun decl readDecl => ?_
  have partDecl := View.isPart_of_required part readDecl
  refine QuietIff.read fun statements _ => QuietIff.read fun own _ => ?_
  refine QuietIff.read fun target readTarget => ?_
  simp only [hasTarget_iff partDecl readDecl readTarget]
  cases target with
  | none =>
    refine QuietIff.read fun name _ => ?_
    refine QuietIff.congr (QuietIff.thenPure (.noting quiet_singleton)) ?_
    simp [Finding.code, Code.severity]
  | some target =>
    refine (quietIff_resolveTypeRef holds target.id _).thenPure.congr ?_
    simp

/-- A list is quiet when it has a first member with a sound target. -/
theorem quietIff_resolveList (holds : index.IsOf text) {list : ShapeRecord}
    (declared : list.IsDeclaredIn text) (isList : list.category = .list) :
    QuietIff (index.resolveList list) (index.IsSoundList list) := by
  obtain ⟨shape, found, part⟩ := declared.exists_aggregate? (.inl isList)
  unfold resolveList
  rw [found]
  refine QuietIff.read fun members read => ?_
  have partMembers := View.isPart_of_required part read
  rw [isSoundList_iff found read]
  cases elements : ShapeMembers.members members with
  | nil =>
    refine QuietIff.congr (QuietIff.thenPure (.noting quiet_singleton)) ?_
    simp [Finding.code, Code.severity]
  | cons element others =>
    have first : element ∈ ShapeMembers.members members := by
      rw [elements]
      exact List.mem_cons_self
    have partElement := View.isPart_of_mem_many partMembers first
    refine (quietIff_resolveElement holds shape partElement).thenPure.congr ?_
    simp

/-- A target is quiet when it is sound, as a list or as an element. -/
theorem quietIff_resolveTarget (holds : index.IsOf text) (id : String) (span : Span) :
    QuietIff (index.resolveTarget id span) (index.IsSoundTarget id) := by
  have element := quietIff_resolveTypeRef holds id span
  unfold IsSoundTarget
  unfold IsSoundElement at element
  unfold resolveTarget listRef? isBuiltin
  cases keyword : Scalar.isKeyword id with
  | true => simpa [keyword] using element
  | false =>
    cases wrapper : Scalar.ofWrapper? id with
    | some scalar => simpa [keyword, wrapper] using element
    | none =>
      cases found : index.find? .list id with
      | none => simpa [keyword, wrapper, IsSoundElement] using element
      | some list =>
        obtain ⟨declared, isList⟩ := holds.isDeclaredIn (mem_records_of_find? found)
        simpa using quietIff_resolveList holds declared isList

theorem quietIff_resolveMember (holds : index.IsOf text) (lines : LineIndex)
    (shape : AggregateShape) {member : ShapeMember} (part : member.tree.IsPart text) :
    QuietIff (index.resolveMember lines (AggregateShape.mixins shape) member)
      (∃ id, index.HasTarget shape member id ∧ index.IsSoundTarget id) := by
  refine QuietIff.read fun decl readDecl => ?_
  have partDecl := View.isPart_of_required part readDecl
  refine QuietIff.read fun name _ => QuietIff.read fun statements _ => ?_
  refine QuietIff.read fun own _ => ?_
  refine QuietIff.congr (QuietIff.bind ?_ fun resolved _ _ =>
    .noting (iff_true_intro (Constraint.quiet_reports _))) (iff_of_eq (and_true _))
  refine QuietIff.read fun target readTarget => ?_
  simp only [hasTarget_iff partDecl readDecl readTarget]
  cases target with
  | none =>
    refine .noting (quiet_singleton.trans ?_)
    simp [Finding.code, Code.severity]
  | some target =>
    refine (quietIff_resolveTarget holds target.id _).thenPure.congr ?_
    simp

/-- The members of a record are quiet when each of them is. -/
theorem quietIff_resolveMembers (holds : index.IsOf text) (lines : LineIndex)
    {record : ShapeRecord} (declared : record.IsDeclaredIn text) :
    QuietIff (index.resolveMembers lines record) (index.HasSoundMembers record) := by
  unfold resolveMembers
  cases found : record.aggregate? with
  | none =>
    have sound : index.HasSoundMembers record := hasSoundMembers_of_aggregate?_eq_none found
    exact QuietIff.pure.congr (iff_of_true trivial sound)
  | some shape =>
    have part := ShapeDecl.isPart_of_form declared.part
      (ShapeRecord.aggregate?_eq_some_iff.mp found)
    refine QuietIff.read fun members read => ?_
    have partMembers := View.isPart_of_required part read
    rw [hasSoundMembers_iff found read]
    apply QuietIff.mapM
    intro member present
    have partMember := View.isPart_of_mem_many partMembers present
    exact quietIff_resolveMember holds lines shape partMember

/-! ## Operations -/

/-- What the first input of an operation names, if it is a structure, is sound. -/
def HasSoundInput (index : ShapeIndex) (body : OperationBody) : Prop :=
  ∀ input, OperationBody.input body = some input → ∀ id,
    OperationTarget.IsNamed (OperationInput.target input) id → ∀ record,
    index.find? .structureShape id = some record → index.HasSoundMembers record

/-- What the first output of an operation names is a structure. -/
def HasKnownOutput (index : ShapeIndex) (body : OperationBody) : Prop :=
  ∀ output, OperationBody.output body = some output → ∀ id,
    OperationTarget.IsNamed (OperationOutput.target output) id →
    ∃ record, index.find? .structureShape id = some record

/-- An input that is named is quiet when the structure it names, if there is one, has sound
members. -/
theorem quietIff_resolveInput (holds : index.IsOf text) (lines : LineIndex)
    (operation : String) (input : OperationInput) :
    QuietIff (index.resolveInput lines operation input)
      (∀ id, OperationTarget.IsNamed (OperationInput.target input) id → ∀ record,
        index.find? .structureShape id = some record → index.HasSoundMembers record) := by
  refine QuietIff.read fun target read => ?_
  cases form : OperationTarget.form target with
  | inline shape =>
    have unnamed : ∀ id, ¬ OperationTarget.IsNamed (OperationInput.target input) id :=
      fun id => OperationTarget.not_isNamed read form
    refine .noting (iff_of_true ?_ fun id named => absurd named (unnamed id))
    simp [quiet_singleton, Finding.code, Code.severity]
  | named id =>
    simp only [OperationTarget.isNamed_iff read form, forall_eq']
    cases found : index.find? .structureShape id.text with
    | none => exact QuietIff.pure.congr (by simp)
    | some record =>
      have declared := (holds.isDeclaredIn (mem_records_of_find? found)).1
      exact (quietIff_resolveMembers holds lines declared).congr (by simp)

/-- An output that is named is quiet when it names a structure. -/
theorem quietIff_resolveOutput (lines : LineIndex) (operation : String)
    (output : OperationOutput) :
    QuietIff (index.resolveOutput lines operation output)
      (∀ id, OperationTarget.IsNamed (OperationOutput.target output) id →
        ∃ record, index.find? .structureShape id = some record) := by
  refine QuietIff.read fun target read => ?_
  cases form : OperationTarget.form target with
  | inline shape =>
    have unnamed : ∀ id, ¬ OperationTarget.IsNamed (OperationOutput.target output) id :=
      fun id => OperationTarget.not_isNamed read form
    refine .noting (iff_of_true ?_ fun id named => absurd named (unnamed id))
    simp [quiet_singleton, Finding.code, Code.severity]
  | named id =>
    refine QuietIff.read fun statements _ => QuietIff.read fun own _ => ?_
    simp only [OperationTarget.isNamed_iff read form, forall_eq']
    cases found : index.find? .structureShape id.text with
    | none =>
      refine .noting (quiet_singleton.trans ?_)
      simp [Finding.code, Code.severity]
    | some record => exact .noting (iff_of_true (Constraint.quiet_reports _) ⟨record, rfl⟩)

theorem quietIff_resolveParameters (holds : index.IsOf text) (lines : LineIndex)
    (operation : String) (body : OperationBody) :
    QuietIff (index.resolveParameters lines operation body) (index.HasSoundInput body) := by
  unfold resolveParameters HasSoundInput
  cases OperationBody.input body with
  | none => exact QuietIff.pure.congr (by simp)
  | some input => exact (quietIff_resolveInput holds lines operation input).congr (by simp)

theorem quietIff_resolveReturnType (lines : LineIndex) (operation : String)
    (body : OperationBody) :
    QuietIff (index.resolveReturnType lines operation body) (index.HasKnownOutput body) := by
  unfold resolveReturnType HasKnownOutput
  cases OperationBody.output body with
  | none => exact QuietIff.pure.congr (by simp)
  | some output => exact (quietIff_resolveOutput lines operation output).congr (by simp)

/-- An operation with a sound input and an output that is known. -/
def IsSoundOperation (index : ShapeIndex) (operation : ShapeRecord) : Prop :=
  ∀ shape, operation.operation? = some shape → ∀ body, OperationShape.body shape = .ok body →
    index.HasSoundInput body ∧ index.HasKnownOutput body

theorem quietIff_resolveSignature (holds : index.IsOf text) (lines : LineIndex)
    (operation : String) (shape : OperationShape) :
    QuietIff (index.resolveSignature lines operation shape)
      (∀ body, OperationShape.body shape = .ok body →
        index.HasSoundInput body ∧ index.HasKnownOutput body) := by
  unfold resolveSignature
  refine QuietIff.read fun body read => ?_
  simp only [read, Except.ok.injEq, forall_eq']
  refine QuietIff.bind (quietIff_resolveParameters holds lines operation body) ?_
  intro parameters reports _
  exact (quietIff_resolveReturnType lines operation body).thenPure

/-- An operation is quiet when its input and its output are. -/
theorem quietIff_resolveMethod (holds : index.IsOf text) (lines : LineIndex)
    (record : ShapeRecord) :
    QuietIff (index.resolveMethod lines record) (index.IsSoundOperation record) := by
  unfold resolveMethod IsSoundOperation
  cases record.operation? with
  | none => exact (QuietIff.thenPure QuietIff.pure).congr (by simp)
  | some shape =>
    exact (quietIff_resolveSignature holds lines record.name shape).thenPure.congr (by simp)

/-! ## Services -/

/-- An element of a list of operations gives the operation that it names, and is
quiet if there is one. -/
theorem resolveListing_spec {service : String} {element : NodeValue}
    {found : Option ShapeRecord} {reports : List Report}
    (success : index.resolveListing service element = .ok (found, reports)) :
    (∀ record, found = some record ↔
      ∃ id, NodeValue.IsId element id ∧ index.find? .operation id = some record) ∧
    (Quiet reports ↔ ∀ id, NodeValue.IsId element id →
      ∃ record, index.find? .operation id = some record) := by
  obtain ⟨value, read, rest⟩ := Reporting.read_bind_eq_ok_iff.mp success
  simp only [NodeValue.isId_iff read]
  cases written : operationId? value with
  | none =>
    rw [written] at rest
    cases rest
    simp [quiet_nil]
  | some id =>
    rw [written] at rest
    simp only at rest
    cases known : index.find? .operation id with
    | none =>
      rw [known] at rest
      cases rest
      simp [known, quiet_singleton, Finding.code, Code.severity]
    | some record =>
      rw [known] at rest
      cases rest
      simp [known, quiet_nil]

/-- What listed elements come to: the operations that are found, and one report for each that is
not. -/
theorem mapM_resolveListing_spec {service : String} {elements : List NodeValue}
    {founds : List (Option ShapeRecord)} {reports : List Report}
    (success : elements.mapM (index.resolveListing service) = .ok (founds, reports)) :
    (∀ record, some record ∈ founds ↔ ∃ id,
      (∃ element ∈ elements, NodeValue.IsId element id) ∧
        index.find? .operation id = some record) ∧
    (Quiet reports ↔ ∀ id, (∃ element ∈ elements, NodeValue.IsId element id) →
      ∃ record, index.find? .operation id = some record) := by
  obtain ⟨each, sources, -⟩ := Reporting.mapM_eq_ok success
  constructor
  · intro record
    constructor
    · intro member
      obtain ⟨element, present, own, listed⟩ := sources _ member
      obtain ⟨id, named, known⟩ := ((resolveListing_spec listed).1 record).mp rfl
      exact ⟨id, ⟨element, present, named⟩, known⟩
    · intro listed
      rcases listed with ⟨id, ⟨element, present, named⟩, known⟩
      obtain ⟨found, own, listed, member, -⟩ := each element present
      rw [← ((resolveListing_spec listed).1 record).mpr ⟨id, named, known⟩]
      exact member
  · have quiet : QuietIff (elements.mapM (index.resolveListing service)) _ :=
      .mapM fun element _ found own listed => (resolveListing_spec listed).2
    rw [quiet founds reports success]
    constructor
    · intro every id listed
      rcases listed with ⟨element, present, named⟩
      exact every element present id named
    · intro every element present id named
      exact every id ⟨element, present, named⟩

/-- The operations of a service are those that its body lists and the document has, and
all are quiet if none is missing. -/
theorem resolveListings_spec {service : String} {body : NodeObject}
    {records : List ShapeRecord} {reports : List Report}
    (success : index.resolveListings service body = .ok (records, reports)) :
    (∀ record, record ∈ records ↔
      ∃ id, NodeObject.Lists body id ∧ index.find? .operation id = some record) ∧
    (Quiet reports ↔ ∀ id, NodeObject.Lists body id →
      ∃ record, index.find? .operation id = some record) := by
  obtain ⟨found, read, rest⟩ := Reporting.read_bind_eq_ok_iff.mp success
  cases found with
  | none =>
    cases rest
    simp [NodeObject.not_lists read, quiet_nil]
  | some listing =>
    obtain ⟨content, readContent, rest⟩ := Reporting.read_bind_eq_ok_iff.mp rest
    simp only [NodeObject.lists_iff read readContent]
    cases form : NodeValueKind.form content with
    | object | number | keyword | string =>
      rw [form] at rest
      cases rest
      simp [quiet_nil]
    | array elements =>
      rw [form] at rest
      obtain ⟨founds, earlier, later, each, last, rfl⟩ := Reporting.bind_eq_ok_iff.mp rest
      cases last
      obtain ⟨records, quiet⟩ := mapM_resolveListing_spec each
      simp only [NodeValue.Form.array.injEq, exists_eq_left', List.append_nil]
      refine ⟨?_, quiet⟩
      intro record
      rw [← records record, List.mem_filterMap]
      simp

/-! ## Verbs -/

/-- The bindings of operations are quiet if their verbs are known. -/
theorem quiet_bindings_iff {operations : List ShapeRecord} :
    Quiet ((index.bindings operations).flatMap fun (operation, binding) =>
      binding.reports operation) ↔
    ∀ operation ∈ operations, ∀ binding,
      HttpBinding.ofTraits? (index.traitsOf operation.name) = some binding →
      binding.method ∈ HttpVerb.literals := by
  rw [quiet_flatMap]
  constructor
  · intro quiet operation member binding bound
    have listed : (operation.name, binding) ∈ index.bindings operations := by
      refine List.mem_filterMap.mpr ⟨operation, member, ?_⟩
      rw [bound]
      rfl
    exact (HttpBinding.quiet_reports_iff _ _).mp (quiet _ listed)
  · intro known pair listed
    obtain ⟨operation, member, found⟩ := List.mem_filterMap.mp listed
    obtain ⟨binding, bound, rfl⟩ := Option.map_eq_some_iff.mp found
    exact (HttpBinding.quiet_reports_iff _ _).mpr (known operation member _ bound)

/-- What is asked of each operation that a service lists. -/
def IsSoundListed (index : ShapeIndex) (operation : ShapeRecord) : Prop :=
  (∀ binding, HttpBinding.ofTraits? (index.traitsOf operation.name) = some binding →
    binding.method ∈ HttpVerb.literals) ∧ index.IsSoundOperation operation

/-- The operations that the body of a service gives. -/
theorem resolveBody_spec {service : ShapeRecord} {shape : EntityShape}
    (found : service.entity? = some shape) {operations : List ShapeRecord}
    {version : Option String} {reports : List Report}
    (success : index.resolveBody service.name shape = .ok ((operations, version), reports)) :
    (∀ record, record ∈ operations ↔
      ∃ id, service.Lists id ∧ index.find? .operation id = some record) ∧
    (Quiet reports ↔ ∀ id, service.Lists id →
      ∃ record, index.find? .operation id = some record) := by
  obtain ⟨body, read, rest⟩ := Reporting.read_bind_eq_ok_iff.mp success
  obtain ⟨listed, earlier, later, listings, after, rfl⟩ := Reporting.bind_eq_ok_iff.mp rest
  obtain ⟨written, -, final⟩ := Reporting.read_bind_eq_ok_iff.mp after
  cases final
  simp only [ShapeRecord.lists_iff found read, List.append_nil]
  exact resolveListings_spec listings

/-- Listed operations are quiet if their bindings and signatures are. -/
theorem quietIff_resolveMethods {α : Type} (holds : index.IsOf text) (lines : LineIndex)
    (operations : List ShapeRecord) (f : List Method → α) :
    QuietIff (do
        Reporting.noting () ((index.bindings operations).flatMap fun (operation, binding) =>
          binding.reports operation)
        let methods ← operations.mapM (index.resolveMethod lines)
        return f methods)
      (∀ operation ∈ operations, index.IsSoundListed operation) := by
  have methods : QuietIff (operations.mapM (index.resolveMethod lines))
      (∀ operation ∈ operations, index.IsSoundOperation operation) :=
    .mapM fun operation _ => quietIff_resolveMethod holds lines operation
  refine QuietIff.congr (QuietIff.bind (.noting quiet_bindings_iff) fun _ _ _ =>
    methods.thenPure) ?_
  simp only [IsSoundListed, imp_and, forall_and]

/-- A service is quiet when it lists known operations only and their verbs are known. -/
theorem quietIff_resolveService (holds : index.IsOf text) (lines : LineIndex)
    (options : Options) (service : ShapeRecord) :
    QuietIff (index.resolveService lines options service)
      ((∀ id, service.Lists id → ∃ operation, index.find? .operation id = some operation) ∧
        ∀ operation, (∃ id, service.Lists id ∧ index.find? .operation id = some operation) →
          index.IsSoundListed operation) := by
  unfold resolveService
  simp only
  cases found : service.entity? with
  | none =>
    simp only [pure_bind]
    refine (quietIff_resolveMethods holds lines [] _).congr ?_
    simp [ShapeRecord.not_lists found]
  | some shape =>
    refine QuietIff.bind (fun given reports success => (resolveBody_spec found success).2) ?_
    intro given reports success
    rcases given with ⟨operations, version⟩
    simp only [← (resolveBody_spec found success).1]
    exact quietIff_resolveMethods holds lines operations _

/-! ## Documents -/

/-- An `apply` statement gives a warning and no error. -/
theorem quietIff_reportApply (statement : ApplyStatement) :
    QuietIff (reportApply statement) True := by
  refine QuietIff.read fun target _ => .noting (iff_true_intro ?_)
  simp [quiet_singleton, Finding.code, Code.severity]

/-- What is sound about services and structures makes up a sound document; a sound
input needs nothing more, since it is a structure of the document. -/
theorem isSound_iff :
    index.IsSound ↔
      (∀ service ∈ index.records .service,
        (∀ id, service.Lists id → ∃ operation, index.find? .operation id = some operation) ∧
        ∀ operation, (∃ id, service.Lists id ∧ index.find? .operation id = some operation) →
          index.IsSoundListed operation) ∧
      ∀ record ∈ index.records .structureShape, index.HasSoundMembers record := by
  constructor
  · intro sound
    refine ⟨fun service member => ⟨sound.operations service member, ?_⟩, sound.members⟩
    intro operation listed
    have isListed : index.IsListed operation := ⟨service, member, listed⟩
    refine ⟨fun binding bound => sound.verbs operation isListed binding
      (HttpBinding.ofTraits?_eq_some_iff.mp bound), fun shape found body read => ⟨?_, ?_⟩⟩
    · intro input _ id _ record known
      exact sound.members record (mem_records_of_find? known)
    · intro output present id named
      exact sound.outputs operation isListed id ⟨shape, body, output, found, read, present, named⟩
  · intro both
    rcases both with ⟨services, structures⟩
    refine ⟨fun service member => (services service member).1, ?_, ?_, structures⟩
    · intro operation isListed binding given
      rcases isListed with ⟨service, member, listed⟩
      exact ((services service member).2 operation listed).1 binding
        (HttpBinding.ofTraits?_eq_some_iff.mpr given)
    · intro operation isListed id hasOutput
      rcases isListed with ⟨service, member, listed⟩
      rcases hasOutput with ⟨shape, body, output, found, read, present, named⟩
      have isSound := ((services service member).2 operation listed).2
      exact (isSound shape found body read).2 output present id named

theorem quietIff_resolveModel (holds : index.IsOf text) (lines : LineIndex) (path : String)
    (options : Options) :
    QuietIff (index.resolveModel lines path options) index.IsSound := by
  have services : QuietIff ((index.records .service).mapM (index.resolveService lines options)) _ :=
    .mapM fun service _ => quietIff_resolveService holds lines options service
  have types : QuietIff ((index.records .structureShape).mapM (index.resolveStructure lines))
      (∀ record ∈ index.records .structureShape, index.HasSoundMembers record) := by
    apply QuietIff.mapM
    intro record member
    have declared := (holds.isDeclaredIn member).1
    exact (quietIff_resolveMembers holds lines declared).thenPure
  have enums : QuietIff
      ((index.records .enum).mapM fun record => liftM (index.resolveEnum lines record)) _ :=
    .mapM fun record _ => .lift
  have applies : QuietIff (index.applies.mapM reportApply) _ :=
    .mapM fun statement _ => quietIff_reportApply statement
  unfold resolveModel
  refine QuietIff.congr (services.bind fun _ _ _ => types.bind fun _ _ _ =>
    enums.bind fun _ _ _ => applies.thenPure) ?_
  rw [isSound_iff]
  simp

end ShapeIndex

/-- A document resolves without an error exactly if its index is sound. -/
theorem resolve_errorFree_iff_isSound {text : String} {events : List Event}
    (accepted : documentEvents text = .ok events) (path : String) (options : Options) :
    ∃ tree idl index resolution,
      documentTree text = .ok (.ok tree) ∧ Idl.ofTree tree = .ok idl ∧
      ShapeIndex.ofIdl idl = .ok index ∧ resolve text path options = .ok resolution ∧
      ((∀ d ∈ resolution.diagnostics, d.severity ≠ .error) ↔ index.IsSound) := by
  obtain ⟨tree, made, document⟩ := exists_documentTree accepted
  obtain ⟨idl, index, root, indexed, holds⟩ := exists_index_of_isDocument document
  obtain ⟨model, reports, resolved, -⟩ :=
    ShapeIndex.succeeds_resolveModel holds (.ofText text) path options
  refine ⟨tree, idl, index, _, made, root, indexed, resolve_eq made root indexed resolved, ?_⟩
  rw [Log.forall_severity_ne_error_iff]
  exact ShapeIndex.quietIff_resolveModel holds _ path options model reports resolved

/-- A service that lists an operation whose output is no structure. -/
def unknownOutput : String :=
  "namespace a\nservice V { operations: [O] }\noperation O { output: S }"

/-- An output that is no structure is an error, and the index is not sound. -/
theorem resolve_unknownOutput :
    ∃ events, documentEvents unknownOutput = .ok events ∧
      ∃ tree idl index resolution,
        documentTree unknownOutput = .ok (.ok tree) ∧ Idl.ofTree tree = .ok idl ∧
        ShapeIndex.ofIdl idl = .ok index ∧ resolve unknownOutput "a" {} = .ok resolution ∧
        ((∀ d ∈ resolution.diagnostics, d.severity ≠ .error) ↔ index.IsSound) ∧
        ¬ index.IsSound := by
  have recognised : (documentEvents unknownOutput).isOk = true := by decide +kernel
  have erroneous :
      ((resolve unknownOutput "a" {}).toOption.any Resolution.hasErrors) = true := by
    decide +kernel
  obtain ⟨events, accepted⟩ := Outcome.exists_ok_of_isOk recognised
  obtain ⟨tree, idl, index, resolution, made, root, indexed, resolved, agrees⟩ :=
    resolve_errorFree_iff_isSound accepted "a" {}
  refine ⟨events, accepted, tree, idl, index, resolution, made, root, indexed, resolved, agrees, ?_⟩
  intro sound
  rw [resolved] at erroneous
  obtain ⟨d, member, error⟩ := List.any_eq_true.mp erroneous
  exact agrees.mpr sound d member (of_decide_eq_true error)

end ServiceIdl
