import ServiceIdl.Proofs.Peg.Farthest
import ServiceIdl.Proofs.Resolve.Steps
import ServiceIdl.Proofs.Resolve.Within

/-!
# Resolutions within their document

Every part of a resolution is located at a place of its text, whether the text is accepted
or not (`exists_isPlaced_resolution`). A binding comes from a trait, and a code or a version that
is read off the document has as many bits as there are for it.
-/

namespace ServiceIdl

variable {text : List Char} {place : Location → Prop} {index : ShapeIndex} {lines : LineIndex}

namespace ShapeIndex

/-! ## Operations -/

theorem ensures_resolveInput (holds : index.IsWithin text) (located : lines.Locates text place)
    (operation : String) {input : OperationInput} (within : input.tree.IsWithin text) :
    Reporting.Ensures (Report.IsWithin text) (index.resolveInput lines operation input)
      fun members => ∀ m ∈ members, m.IsPlaced place := by
  refine .required within fun target targetWithin => ?_
  rw [← OperationTarget.tree_form] at targetWithin
  cases form : OperationTarget.form target with
  | inline shape =>
    rw [form] at targetWithin
    exact .reporting (List.forall_mem_nil _) (View.span_isWithin targetWithin)
  | named id =>
    simp only
    cases found : index.find? .structureShape id.text with
    | none => exact .pure (List.forall_mem_nil _)
    | some record => exact ensures_resolveMembers holds located (holds.found found)

theorem ensures_resolveOutput (holds : index.IsWithin text) (located : lines.Locates text place)
    (operation : String) {output : OperationOutput} (within : output.tree.IsWithin text) :
    Reporting.Ensures (Report.IsWithin text) (index.resolveOutput lines operation output)
      fun returnType => ∀ t, returnType = some t → t.IsPlaced place := by
  refine .required within fun target targetWithin => ?_
  rw [← OperationTarget.tree_form] at targetWithin
  cases form : OperationTarget.form target with
  | inline shape =>
    rw [form] at targetWithin
    exact .reporting (by simp) (View.span_isWithin targetWithin)
  | named id =>
    rw [form] at targetWithin
    have here : id.span.IsOf text := View.span_isWithin targetWithin
    refine .required within fun statements inside => ?_
    refine .read (Trait.ensures_ofStatements inside) fun own each => ?_
    simp only
    cases index.find? .structureShape id.text with
    | none => exact .reporting (by simp) here
    | some record =>
      have traits : ∀ t ∈ index.traitsOf record.name ++ own, t.IsWithin text :=
        List.forall_mem_append.mpr ⟨holds.traitsOf record.name, each⟩
      refine .noting ?_ (Constraint.within_of_reports traits)
      intro t same
      cases same
      exact ⟨Constraint.fits_of_ofTraits traits, located _ here⟩

theorem ensures_resolveSignature (holds : index.IsWithin text) (located : lines.Locates text place)
    (operation : String) {shape : OperationShape} (within : shape.tree.IsWithin text) :
    Reporting.Ensures (Report.IsWithin text) (index.resolveSignature lines operation shape)
      fun (parameters, returnType) => (∀ m ∈ parameters, m.IsPlaced place) ∧
        ∀ t, returnType = some t → t.IsPlaced place := by
  refine .required within fun body bodyWithin => ?_
  have parameters : Reporting.Ensures (Report.IsWithin text)
      (index.resolveParameters lines operation body)
      fun members => ∀ m ∈ members, m.IsPlaced place := by
    unfold resolveParameters
    cases found : OperationBody.input body with
    | none => exact .pure (List.forall_mem_nil _)
    | some input =>
      have inputWithin := View.isWithin_of_optional bodyWithin found
      exact ensures_resolveInput holds located operation inputWithin
  have returnType : Reporting.Ensures (Report.IsWithin text)
      (index.resolveReturnType lines operation body)
      fun returnType => ∀ t, returnType = some t → t.IsPlaced place := by
    unfold resolveReturnType
    cases found : OperationBody.output body with
    | none => exact .pure (by simp)
    | some output =>
      have outputWithin := View.isWithin_of_optional bodyWithin found
      exact ensures_resolveOutput holds located operation outputWithin
  exact parameters.bind fun _ front => returnType.bind fun _ behind => .pure ⟨front, behind⟩

/-- A method is placed, with its parameters and its return type. -/
theorem ensures_resolveMethod (holds : index.IsWithin text) (located : lines.Locates text place)
    {record : ShapeRecord} (within : record.decl.tree.IsWithin text) :
    Reporting.Ensures (Report.IsWithin text) (index.resolveMethod lines record)
      fun m => m.IsPlaced place := by
  have here : record.span.IsOf text := View.span_isWithin within
  have deprecated := place_ofTraits? located (holds.traitsOf record.name)
  unfold resolveMethod
  cases form : record.operation? with
  | none =>
    exact .pure ⟨deprecated, List.forall_mem_nil _, by simp, located _ here⟩
  | some shape =>
    have shapeWithin := ShapeDecl.isWithin_of_form within
      (ShapeRecord.operation?_eq_some_iff.mp form)
    refine (ensures_resolveSignature holds located record.name shapeWithin).bind ?_
    intro (parameters, returnType) each
    exact .pure ⟨deprecated, each.1, each.2, located _ here⟩

end ShapeIndex

/-! ## Bindings -/

/-- The binding lies within a text, and its code has 16 bits. -/
structure HttpBinding.IsWithin (text : List Char) (binding : HttpBinding) : Prop where
  span : binding.span.IsOf text
  code : ∀ code, binding.code = some code → code < 0x10000

theorem HttpBinding.lt_of_code? {value : Value} {code : Nat} (read : code? value = some code) :
    code < 0x10000 := by
  obtain ⟨n, kept, rfl⟩ := Option.map_eq_some_iff.mp read
  obtain ⟨-, checked⟩ := Option.filter_eq_some_iff.mp kept
  have bounds : 0 ≤ n ∧ n < 0x10000 := of_decide_eq_true checked
  omega

theorem HttpBinding.isWithin_of_ofTrait? {t : Trait} {binding : HttpBinding}
    (within : t.IsWithin text) (bound : ofTrait? t = some binding) : binding.IsWithin text := by
  unfold ofTrait? at bound
  split at bound
  · obtain ⟨method, -, bound⟩ := Option.bind_eq_some_iff.mp bound
    obtain ⟨uri, -, bound⟩ := Option.bind_eq_some_iff.mp bound
    split at bound
    · cases bound
      exact ⟨within.span, by simp⟩
    · obtain ⟨code, read, bound⟩ := Option.bind_eq_some_iff.mp bound
      cases bound
      obtain ⟨n, given, rfl⟩ := Option.map_eq_some_iff.mp read
      refine ⟨within.span, ?_⟩
      intro code same
      cases same
      exact lt_of_code? given
  · cases bound

/-- An unknown verb is reported where the binding is. -/
theorem HttpBinding.IsWithin.reports {binding : HttpBinding}
    (within : binding.IsWithin text) (operation : String) :
    ∀ report ∈ binding.reports operation, report.span.IsOf text := by
  unfold HttpBinding.reports
  split
  · exact List.forall_mem_singleton.mpr within.span
  · exact List.forall_mem_nil _

/-- The method of a binding is where the binding is. -/
theorem HttpBinding.IsWithin.isPlaced {binding : HttpBinding} (within : binding.IsWithin text)
    (located : lines.Locates text place) (code : Nat) (operation : String) :
    HttpMethod.IsPlaced place code
      ⟨binding.verb, binding.code.getD code, operation, lines.locate binding.span⟩ := by
  refine ⟨?_, located _ within.span⟩
  cases given : binding.code with
  | none => exact .inl rfl
  | some own => exact .inr (within.code own given)

/-! ## Services -/

namespace ShapeIndex

theorem ensures_resolveListing (holds : index.IsWithin text) (service : String)
    {element : NodeValue} (within : element.tree.IsWithin text) :
    Reporting.Ensures (Report.IsWithin text) (index.resolveListing service element) fun found =>
      ∀ record, found = some record → record.decl.tree.IsWithin text := by
  refine .skip fun value => ?_
  cases operationId? value with
  | none => exact .pure (by simp)
  | some id =>
    simp only
    cases found : index.find? .operation id with
    | none => exact .reporting (by simp) (View.span_isWithin within)
    | some record =>
      refine .pure ?_
      intro other same
      cases same
      exact holds.found found

end ShapeIndex

theorem NodeObject.ensures_get? {object : NodeObject} (within : object.tree.IsWithin text)
    (key : String) :
    Outcome.Ensures (NodeObject.get? object key) fun found =>
      ∀ value, found = some value → value.tree.IsWithin text := by
  refine .foldlM (by simp) ?_
  intro found known entry member
  have entryWithin := View.isWithin_of_mem_many within member
  refine .read fun written _ => .read fun name _ => ?_
  split
  · refine (View.ensures_required entryWithin).bind fun value valueWithin => .pure ?_
    intro other same
    cases same
    exact valueWithin
  · exact .pure known

namespace ShapeIndex

theorem ensures_resolveListings (holds : index.IsWithin text) (service : String)
    {body : NodeObject} (within : body.tree.IsWithin text) :
    Reporting.Ensures (Report.IsWithin text) (index.resolveListings service body) fun records =>
      ∀ record ∈ records, record.decl.tree.IsWithin text := by
  refine .read (NodeObject.ensures_get? within "operations") fun found known => ?_
  cases found with
  | none => exact .pure (List.forall_mem_nil _)
  | some listing =>
    refine .required (known listing rfl) fun content contentWithin => ?_
    rw [← NodeValueKind.tree_form] at contentWithin
    cases form : NodeValueKind.form content with
    | array elements =>
      rw [form] at contentWithin
      refine Reporting.Ensures.bind (.mapM fun element member =>
        ensures_resolveListing holds service (View.isWithin_of_mem_many contentWithin member)) ?_
      intro records each
      refine .pure fun record member => ?_
      obtain ⟨found, present, same⟩ := List.mem_filterMap.mp member
      exact each found present record same
    | object | number | keyword | string => exact .pure (List.forall_mem_nil _)

/-- The operations that a body lists are declared in the text. -/
theorem ensures_resolveBody (holds : index.IsWithin text) (service : String)
    {shape : EntityShape} (within : shape.tree.IsWithin text) :
    Reporting.Ensures (Report.IsWithin text) (index.resolveBody service shape)
      fun (operations, _) => ∀ record ∈ operations, record.decl.tree.IsWithin text := by
  refine .required within fun body bodyWithin => ?_
  refine (ensures_resolveListings holds service bodyWithin).bind fun operations each => ?_
  exact .skip fun version => .pure each

theorem within_of_bindings (holds : index.IsWithin text) (operations : List ShapeRecord) :
    ∀ bound ∈ index.bindings operations, bound.2.IsWithin text := by
  intro bound member
  obtain ⟨record, -, found⟩ := List.mem_filterMap.mp member
  obtain ⟨binding, bound, rfl⟩ := Option.map_eq_some_iff.mp found
  obtain ⟨t, first, read⟩ := Option.bind_eq_some_iff.mp bound
  have within := holds.traitsOf record.name t (Trait.mem_of_find? first)
  exact HttpBinding.isWithin_of_ofTrait? within read

end ShapeIndex

namespace ShapeIndex

/-- An interface is placed, with its methods and paths. -/
theorem ensures_interfaceOf (holds : index.IsWithin text) (located : lines.Locates text place)
    (options : Options) {record : ShapeRecord} (within : record.decl.tree.IsWithin text)
    {operations : List ShapeRecord}
    (each : ∀ operation ∈ operations, operation.decl.tree.IsWithin text)
    (version : Option String) :
    Reporting.Ensures (Report.IsWithin text)
      (index.interfaceOf lines options record operations version)
      fun (interface, _) => interface.IsPlaced place options.defaultSuccessCode := by
  have here : record.span.IsOf text := View.span_isWithin within
  have bound := within_of_bindings holds operations
  have noted : ∀ report ∈ (index.bindings operations).flatMap
      (fun bound => bound.2.reports bound.1), report.span.IsOf text := by
    intro report member
    obtain ⟨entry, present, inside⟩ := List.mem_flatMap.mp member
    exact (bound entry present).reports entry.1 report inside
  have unbound : HttpPaths.All (HttpMethod.IsPlaced place options.defaultSuccessCode)
      Table.empty := .empty
  have paths := (unbound.addAll fun entry present =>
    (bound entry present).isPlaced located _ entry.1).toList
  have methods : Reporting.Ensures (Report.IsWithin text)
      (operations.mapM (index.resolveMethod lines))
      fun methods => ∀ m ∈ methods, m.IsPlaced place :=
    .mapM fun operation member => ensures_resolveMethod holds located (each operation member)
  have reported : Reporting.Ensures (Report.IsWithin text) (Reporting.noting () _) fun _ => True :=
    .noting trivial noted
  refine reported.bind fun _ _ => methods.bind fun methods known => .pure ?_
  exact ⟨paths, known, located _ here⟩

theorem ensures_resolveService (holds : index.IsWithin text) (located : lines.Locates text place)
    (options : Options) {record : ShapeRecord} (within : record.decl.tree.IsWithin text) :
    Reporting.Ensures (Report.IsWithin text) (index.resolveService lines options record)
      fun (interface, _) => interface.IsPlaced place options.defaultSuccessCode := by
  cases form : record.entity? with
  | none =>
    rw [resolveService_of_none form]
    exact ensures_interfaceOf holds located options within (List.forall_mem_nil _) none
  | some shape =>
    rw [resolveService_of_some form]
    have shapeWithin := ShapeDecl.isWithin_of_form within
      (ShapeRecord.entity?_eq_some_iff.mp form)
    refine (ensures_resolveBody holds record.name shapeWithin).bind fun given each => ?_
    exact ensures_interfaceOf holds located options within each _

/-! ## Documents -/

theorem ensures_reportApply {statement : ApplyStatement} (within : statement.tree.IsWithin text) :
    Reporting.Ensures (Report.IsWithin text) (reportApply statement) fun _ => True :=
  .skip fun _ => .report (View.span_isWithin within)

/-- A version text gives a number of 32 bits. -/
theorem lt_of_leadingMajorVersion? {version : String} {n : Nat}
    (read : leadingMajorVersion? version = some n) : n < 0x100000000 := by
  obtain ⟨-, checked⟩ := Option.filter_eq_some_iff.mp read
  exact of_decide_eq_true checked

theorem majorVersionFrom_eq_or_lt (header : Option ServiceHeader) (default : Nat) :
    ServiceModel.majorVersionFrom header default = default ∨
      ServiceModel.majorVersionFrom header default < 0x100000000 := by
  unfold ServiceModel.majorVersionFrom
  cases found : (header.bind ServiceHeader.version).bind leadingMajorVersion? with
  | none => exact .inl rfl
  | some n =>
    obtain ⟨version, -, read⟩ := Option.bind_eq_some_iff.mp found
    exact .inr (lt_of_leadingMajorVersion? read)

/-- A model is placed, and so is everything that is reported with it. -/
theorem ensures_resolveModel (holds : index.IsWithin text) (located : lines.Locates text place)
    (path : String) (options : Options) :
    Reporting.Ensures (Report.IsWithin text) (index.resolveModel lines path options) fun m =>
      m.IsPlaced place options := by
  refine Reporting.Ensures.bind (.mapM fun record member =>
    ensures_resolveService holds located options (holds.record member))
      fun services interfaces => ?_
  refine Reporting.Ensures.bind (.mapM fun record member =>
    ensures_resolveStructure holds located (holds.record member)) fun types eachType => ?_
  refine Reporting.Ensures.bind (.mapM fun record member =>
    .lift (ensures_resolveEnum holds located (holds.record member))) fun enums eachEnum => ?_
  refine Reporting.Ensures.bind (.mapM fun statement member =>
    ensures_reportApply (holds.applies statement member)) fun _ _ => .pure ?_
  refine ⟨majorVersionFrom_eq_or_lt _ _, ?_, eachType, eachEnum, List.forall_mem_nil _⟩
  intro interface member
  obtain ⟨service, present, rfl⟩ := List.mem_map.mp member
  exact interfaces service present

end ShapeIndex

/-- A text is rejected between two of its characters or at one of its ends. -/
theorem Rejection.isBoundary_offset {text : String} {rejection : Rejection}
    (rejected : recognise text = .error rejection) :
    Text.IsBoundary text.toList rejection.offset := by
  have front : Text.IsBoundary text.toList 0 := ⟨[], text.toList, rfl, rfl⟩
  have start : (initialState text.toList).Spans text.toList := ⟨⟨[], rfl, rfl⟩, front⟩
  have ended : (Peg.run documentGrammar (depthBound text.toList.length) documentContext
      (.rule .idl) (initialState text.toList)).Spans text.toList :=
    start.run documentContext (.rule .idl)
  unfold recognise at rejected
  simp only at rejected
  split at rejected
  · cases rejected
  · rename_i attempts outcome
    rw [outcome] at ended
    cases rejected
    exact ended
  · cases rejected
    exact front

/-- The text is no document: its model is empty, and its one diagnostic lies within it. -/
theorem Resolution.isPlaced_ofRejection {text : String} {lines : LineIndex} {rejection : Rejection}
    (located : lines.Locates text.toList place) (rejected : recognise text = .error rejection)
    (path : String) (options : Options) :
    (Resolution.ofRejection lines path options rejection).IsPlaced place options := by
  have here := (rejection.isBoundary_offset rejected).isOf
  constructor
  · exact ⟨.inl rfl, List.forall_mem_nil _, List.forall_mem_nil _, List.forall_mem_nil _,
      List.forall_mem_nil _⟩
  · exact List.forall_mem_singleton.mpr (located _ here)

/-- Every text has a resolution, and every part of it is at a place of the text. -/
theorem exists_isPlaced_resolution {text : String}
    (located : (LineIndex.ofText text).Locates text.toList place) (path : String)
    (options : Options) :
    ∃ resolution, resolve text path options = .ok resolution ∧
      resolution.IsPlaced place options := by
  cases recognised : recognise text with
  | error rejection =>
    unfold resolve documentTree documentEvents
    rw [recognised]
    exact ⟨_, rfl, Resolution.isPlaced_ofRejection located recognised path options⟩
  | ok trace =>
    have accepted : documentEvents text = .ok (Event.ofMatches trace) := by
      rw [documentEvents, recognised]
      rfl
    obtain ⟨tree, made, document⟩ := exists_documentTree accepted
    obtain ⟨idl, index, root, indexed, holds⟩ := exists_index_of_isDocument document
    obtain ⟨model, reports, modelled, -⟩ :=
      ShapeIndex.succeeds_resolveModel holds (.ofText text) path options
    have whole : idl.tree.IsWithin text.toList := by
      rw [Idl.ofTree_eq_ok_iff.mp root]
      exact document.isWithin
    have within := ShapeIndex.ensures_ofIdl whole index indexed
    obtain ⟨modelPlaced, noted⟩ :=
      ShapeIndex.ensures_resolveModel within located path options model reports modelled
    refine ⟨_, resolve_eq made root indexed modelled, modelPlaced, ?_⟩
    intro d kept
    rcases Log.mem_entries_insertReports.mp kept with old | ⟨report, member, rfl⟩
    · cases old
    · exact located _ (noted report member)

end ServiceIdl
