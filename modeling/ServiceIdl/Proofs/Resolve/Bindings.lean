import ServiceIdl.Proofs.Model.Binding
import ServiceIdl.Proofs.Resolve.Listings

/-!
# The paths of a service

The operations that a service lists have methods at the paths that their traits bind them to: as
often as they are listed, grouped by path, and in the order of the list. An operation that is not
bound has none (`ShapeIndex.BindsOperations`). A verb that is not known counts as GET and is
reported once, where the binding is.

Which traits an operation has is left open in this account. A model takes those of the last shape
statement with the name of the operation (`resolve_bindings`), and these are not always those in
front of the operation itself (`resolve_boundNamesake`).
-/

namespace ServiceIdl

open Reporting (bind_eq_ok_iff read_bind_eq_ok_iff)

/-! ## What is asked of paths and reports -/

/-- The one report on the verb of an operation's binding, where the binding is; none if the verb
is known. -/
structure HttpBinding.ReportsVerb (path : String) (lines : LineIndex) (operation : String)
    (diagnostics : List Diagnostic) (binding : HttpBinding) : Prop where
  unknown : binding.method ∉ HttpVerb.literals →
    diagnostics.filter (fun d =>
        d.code = .unsupportedHttpVerb ∧ d.location = lines.locate binding.span) =
      [.ofReport path lines ⟨.unsupportedVerb binding.method operation, binding.span⟩]
  known : binding.method ∈ HttpVerb.literals →
    diagnostics.filter (fun d =>
      d.code = .unsupportedHttpVerb ∧ d.location = lines.locate binding.span) = []

/-- The operation has traits that give it this binding. -/
def ShapeRecord.IsBound (has : ShapeRecord → List Trait → Prop) (operation : ShapeRecord)
    (bound : ShapeRecord × HttpBinding) : Prop :=
  bound.1 = operation ∧ ∃ traits, has operation traits ∧ bound.2.IsGivenBy traits

namespace ShapeIndex

/-- The paths of an interface are those that operations with these traits are bound to. -/
structure BindsOperations (has : ShapeRecord → List Trait → Prop) (path : String)
    (lines : LineIndex) (defaultCode : Nat) (operations : List ShapeRecord)
    (interface : Interface) (diagnostics : List Diagnostic) : Prop where
  grouped : ∃ bound occurrences,
    Chosen (ShapeRecord.IsBound has) operations bound ∧
    List.Forall₂ (fun b o => o.1 = b.2.uri ∧ o.2.IsBoundBy lines defaultCode b.1.name b.2)
      bound occurrences ∧
    HttpPath.Group occurrences interface.httpPaths
  reported : ∀ operation ∈ operations, ∀ binding,
    ShapeRecord.IsBound has operation (operation, binding) →
    binding.ReportsVerb path lines operation.name diagnostics
  unbound : ∀ operation ∈ operations,
    (∀ binding, ¬ ShapeRecord.IsBound has operation (operation, binding)) →
    (∀ p ∈ interface.httpPaths, ∀ m ∈ p.methods, m.name ≠ operation.name) ∧
    ∀ traits, has operation traits → ∀ t ∈ traits, ∀ d ∈ diagnostics,
      d.code = .unsupportedHttpVerb → d.location ≠ lines.locate t.span

/-- All interfaces of a model have the paths that the listed operations are bound to by these
traits. -/
def BindsListed (index : ShapeIndex) (has : ShapeRecord → List Trait → Prop) (path : String)
    (lines : LineIndex) (defaultCode : Nat) (resolution : Resolution) : Prop :=
  List.Forall₂ (fun service interface => ∃ operations, index.ListsOperations service operations ∧
      BindsOperations has path lines defaultCode operations interface resolution.diagnostics)
    (index.records .service) resolution.model.interfaces

variable {index : ShapeIndex} {lines : LineIndex} {options : Options} {path : String}
  {service : ShapeRecord} {operations : List ShapeRecord} {reports : List Report}

/-- An interface with an operation that is bound has paths. -/
theorem BindsOperations.httpPaths_ne_nil {has : ShapeRecord → List Trait → Prop} {code : Nat}
    {interface : Interface} {diagnostics : List Diagnostic}
    (binds : BindsOperations has path lines code operations interface diagnostics)
    {operation : ShapeRecord} (member : operation ∈ operations)
    {bound : ShapeRecord × HttpBinding} (isBound : ShapeRecord.IsBound has operation bound) :
    interface.httpPaths ≠ [] := by
  obtain ⟨all, occurrences, chosen, each, grouped⟩ := binds.grouped
  obtain ⟨bound', inside, -⟩ := chosen.exists_of_mem member isBound
  obtain ⟨occurrence, isIn, -⟩ := exists_mem_of_forall₂ each inside
  obtain ⟨p, present, -⟩ :=
    List.mem_map.mp ((grouped.order.mem_iff _).mpr (List.mem_map_of_mem isIn))
  exact List.ne_nil_of_mem present

/-! ## Interfaces -/

/-- The paths of an interface are made of the bindings of its operations, and these are
reported. -/
theorem httpPaths_of_interfaceOf {version : Option String} {interface : Interface}
    {header : ServiceHeader}
    (success : index.interfaceOf lines options service operations version =
      .ok ((interface, header), reports)) :
    HttpPath.Group ((index.bindings operations).map fun (operation, binding) =>
        (binding.uri, .ofBinding lines options.defaultSuccessCode operation binding))
      interface.httpPaths ∧
    ∀ bound ∈ index.bindings operations, ∀ report ∈ bound.2.reports bound.1, report ∈ reports := by
  obtain ⟨_, _, later, noted, success, all⟩ := bind_eq_ok_iff.mp success
  obtain ⟨methods, own, _, resolved, final, -⟩ := bind_eq_ok_iff.mp success
  cases noted
  cases final
  rw [all]
  refine ⟨(HttpPaths.Groups.empty.addAll lines options.defaultSuccessCode _).toList, ?_⟩
  intro bound member report reported
  exact List.mem_append_left _ (List.mem_flatMap.mpr ⟨bound, member, reported⟩)

/-- The bindings of operations, with the operations. -/
def bound (index : ShapeIndex) (operations : List ShapeRecord) :
    List (ShapeRecord × HttpBinding) :=
  operations.filterMap fun operation =>
    (HttpBinding.ofTraits? (index.traitsOf operation.name)).map fun binding => (operation, binding)

theorem bindings_eq_map_bound (index : ShapeIndex) (operations : List ShapeRecord) :
    index.bindings operations =
      (index.bound operations).map fun (operation, binding) => (operation.name, binding) := by
  unfold bindings bound
  rw [List.map_filterMap]
  simp only [Option.map_map, Function.comp_def]

section Traits

variable {has : ShapeRecord → List Trait → Prop}
  (traits : ∀ operation ∈ index.records .operation, ∀ traits,
    has operation traits ↔ traits = index.traitsOf operation.name)

include traits

/-- Where the relation gives an operation its traits, a binding is what the reader makes of them. -/
theorem isBound_iff {operation : ShapeRecord} (member : operation ∈ index.records .operation)
    {bound : ShapeRecord × HttpBinding} :
    ShapeRecord.IsBound has operation bound ↔ bound.1 = operation ∧
      HttpBinding.ofTraits? (index.traitsOf operation.name) = some bound.2 := by
  unfold ShapeRecord.IsBound
  simp only [traits operation member, exists_eq_left, HttpBinding.ofTraits?_eq_some_iff]

/-- The paths of one interface group the bindings of its operations, and at their traits exactly
the unknown verbs are reported. -/
theorem bindsOperations_of_interfaceOf {root : Tree}
    (found : ∀ report ∈ reports, index.Finds root report)
    (apart : ∀ operation ∈ index.records .operation, ∀ t ∈ index.traitsOf operation.name,
      ∀ other ∈ index.records .operation, ∀ t' ∈ index.traitsOf other.name,
      t.span = t'.span → operation = other)
    (names : ((index.records .operation).map ShapeRecord.name).Nodup)
    (isIn : ∀ operation ∈ operations, operation ∈ index.records .operation)
    {version : Option String} {interface : Interface} {header : ServiceHeader} {own : List Report}
    (success : index.interfaceOf lines options service operations version =
      .ok ((interface, header), own)) (inside : ∀ report ∈ own, report ∈ reports) :
    BindsOperations has path lines options.defaultSuccessCode operations interface
      (Log.empty.insertReports path lines reports).entries := by
  obtain ⟨grouped, noted⟩ := httpPaths_of_interfaceOf success
  rw [bindings_eq_map_bound, List.map_map] at grouped
  -- A report on a verb is where the binding of its operation is, and so on a trait of it.
  have onTrait {report : Report} (reported : report ∈ reports)
      (code : report.finding.code = .unsupportedHttpVerb) {operation : ShapeRecord}
      (member : operation ∈ index.records .operation) {t : Trait}
      (present : t ∈ index.traitsOf operation.name) (same : report.span = t.span) :
      ∃ binding, HttpBinding.ofTraits? (index.traitsOf operation.name) = some binding ∧
        HttpVerb.ofLiteral? binding.method = none ∧
        report = ⟨.unsupportedVerb binding.method operation.name, binding.span⟩ := by
    cases found report reported with
    | @unsupportedVerb other binding member' bound unknown =>
      obtain ⟨t', present', place⟩ := HttpBinding.exists_span_of_ofTraits? bound
      obtain rfl := apart other member' t' present' operation member t present
        (place.symm.trans same)
      exact ⟨binding, bound, unknown, rfl⟩
    | _ => cases code
  refine ⟨⟨index.bound operations, _, ?_, ?_, grouped⟩, ?_, ?_⟩
  · refine .of_filterMap fun operation member bound => ?_
    rw [isBound_iff traits (isIn operation member), Option.map_eq_some_iff]
    constructor
    · rintro ⟨binding, given, rfl⟩
      exact ⟨rfl, given⟩
    · rintro ⟨rfl, given⟩
      exact ⟨bound.2, given, rfl⟩
  · rw [List.forall₂_map_right_iff]
    exact List.forall₂_same.mpr fun bound _ => ⟨rfl, HttpMethod.isBoundBy_ofBinding ..⟩
  · intro operation member binding isBound
    have isIn := isIn operation member
    obtain ⟨-, given⟩ := (isBound_iff traits isIn).mp isBound
    obtain ⟨t, present, place⟩ := HttpBinding.exists_span_of_ofTraits? given
    constructor
    · intro unknown
      have listed : (operation.name, binding) ∈ index.bindings operations := by
        refine List.mem_filterMap.mpr ⟨operation, member, ?_⟩
        rw [given]
        rfl
      have reported : ⟨.unsupportedVerb binding.method operation.name, binding.span⟩ ∈ reports := by
        refine inside _ (noted _ listed _ ?_)
        rw [HttpBinding.reports, HttpVerb.ofLiteral?_eq_none_iff.mpr unknown]
        exact List.mem_singleton_self _
      refine Log.filter_entries_eq_singleton reported (decide_eq_true ⟨rfl, rfl⟩) ?_
      intro other member' here
      obtain ⟨code, location⟩ := of_decide_eq_true here
      have same := LineIndex.span_eq_of_locate_eq location
      obtain ⟨binding', given', -, rfl⟩ := onTrait member' code isIn present (same.trans place)
      cases given.symm.trans given'
      rfl
    · intro known
      refine Log.filter_entries_eq_nil fun other member' => decide_eq_false ?_
      rintro ⟨code, location⟩
      have same := LineIndex.span_eq_of_locate_eq location
      obtain ⟨binding', given', unknown, -⟩ := onTrait member' code isIn present (same.trans place)
      cases given.symm.trans given'
      exact HttpVerb.ofLiteral?_eq_none_iff.mp unknown known
  · intro operation member unbound
    have isIn' := isIn operation member
    have none : ∀ binding, HttpBinding.ofTraits? (index.traitsOf operation.name) ≠ some binding :=
      fun binding given => unbound binding ((isBound_iff traits isIn').mpr ⟨rfl, given⟩)
    constructor
    · intro p present m inPath named
      rw [grouped.methods p present] at inPath
      obtain ⟨occurrence, occurs, rfl⟩ := List.mem_map.mp inPath
      obtain ⟨⟨other, binding⟩, isBound, rfl⟩ := List.mem_map.mp (List.mem_filter.mp occurs).1
      obtain ⟨other', listed, given⟩ := List.mem_filterMap.mp isBound
      obtain ⟨binding', given, same⟩ := Option.map_eq_some_iff.mp given
      cases same
      obtain rfl := List.inj_on_of_nodup_map names (isIn other listed) isIn' named
      exact none binding given
    · intro given has t present d kept code location
      rw [(traits operation isIn' given).mp has] at present
      obtain ⟨report, reported, rfl⟩ := Log.mem_entries_insertReports_empty.mp kept
      obtain ⟨binding, given, -, -⟩ := onTrait reported code isIn' present
        (LineIndex.span_eq_of_locate_eq location)
      exact none binding given

end Traits

end ShapeIndex

/-! ## Documents -/

/-- The paths of a model are those that the listed operations are bound to, by the traits in front
of the last shape statement with their name. -/
theorem resolve_bindings {text : String} {events : List Event}
    (accepted : documentEvents text = .ok events) (path : String) (options : Options) :
    ∃ tree idl index statements resolution,
      documentTree text = .ok (.ok tree) ∧ Idl.ofTree tree = .ok idl ∧
      ShapeIndex.ofIdl idl = .ok index ∧ idl.HasShapes statements ∧
      resolve text path options = .ok resolution ∧
      (∀ operation ∈ index.records .operation,
        ∃ traits, HasLastTraits statements operation.name traits) ∧
      index.BindsListed (fun operation => HasLastTraits statements operation.name) path
        (.ofText text) options.defaultSuccessCode resolution := by
  obtain ⟨tree, idl, index, model, reports, made, root, indexed, document, holds, -, modelled,
    found, resolved⟩ := exists_findings_of_accepted accepted path options
  have byName := ShapeIndex.findsByName_ofIdl document holds indexed
  obtain ⟨statements, shapes⟩ := ShapeIndex.exists_hasShapes indexed
  have last {operation : ShapeRecord} (member : operation ∈ index.records .operation) :
      HasLastTraits statements operation.name (index.traitsOf operation.name) :=
    ShapeIndex.hasLastTraits holds (ShapeIndex.keepsLast_ofIdl indexed shapes) member
  have traits (operation : ShapeRecord) (member : operation ∈ index.records .operation)
      (traits : List Trait) :
      HasLastTraits statements operation.name traits ↔
        traits = index.traitsOf operation.name := by
    constructor
    · intro has
      exact has.unique (last member)
    · rintro rfl
      exact last member
  have names := (ShapeIndex.keepsLastShape_ofIdl indexed shapes).nodup_names holds .operation
  obtain ⟨services, fromServices, _, _, _, _, served, -, -, -, interfaces, -, all⟩ :=
    ShapeIndex.resolveModel_spec modelled
  refine ⟨tree, idl, index, statements, _, made, root, indexed, shapes, resolved,
    fun operation member => ⟨_, last member⟩, ?_⟩
  unfold ShapeIndex.BindsListed
  rw [interfaces, List.forall₂_map_right_iff]
  refine Reporting.forall₂_of_mapM_eq_ok ?_ served
  rintro service member ⟨interface, header⟩ own success
  obtain ⟨_, own', success', -, inside⟩ := (Reporting.mapM_eq_ok served).1 service member
  cases success.symm.trans success'
  obtain ⟨operations, version, earlier, later, lists, -, made, rfl⟩ :=
    ShapeIndex.exists_listsOperations byName success
  refine ⟨operations, lists, ShapeIndex.bindsOperations_of_interfaceOf traits found ?_ names
    lists.mem_records made fun report reported => ?_⟩
  · intro operation isIn t present other isIn' t' present' same
    have named := (last isIn).name_eq_of_span_eq document shapes (last isIn') present present' same
    exact List.inj_on_of_nodup_map names isIn isIn' named
  · rw [all]
    exact List.mem_append_left _ (inside report (List.mem_append_right _ reported))

/-- Operations on one path, one of them twice and one with a verb that is not known, and one whose
code is too large. -/
def boundListing : String :=
  "namespace a\nservice V \x7b operations: [O, P, Q, O] \x7d\n" ++
    "@http(method: \"GET\", uri: \"/x\")\noperation O \x7b\x7d\n" ++
    "@http(method: \"GET\", uri: \"/y\")\n" ++
    "@http(method: \"FETCH\", uri: \"/x\", code: 201)\noperation P \x7b\x7d\n" ++
    "@http(method: \"GET\", uri: \"/x\", code: 70000)\noperation Q \x7b\x7d"

/-- One path with three methods in the order of the listing: the unknown verb counts as GET and is
reported once, and the operation whose code is too large is not bound. -/
theorem resolve_bindings_boundListing :
    ∃ events, documentEvents boundListing = .ok events ∧
      ∃ tree idl index statements resolution,
        documentTree boundListing = .ok (.ok tree) ∧ Idl.ofTree tree = .ok idl ∧
        ShapeIndex.ofIdl idl = .ok index ∧ idl.HasShapes statements ∧
        resolve boundListing "a" {} = .ok resolution ∧
        index.BindsListed (fun operation => HasLastTraits statements operation.name) "a"
          (.ofText boundListing) 200 resolution ∧
        resolution.model.interfaces.map (fun interface => interface.httpPaths.map fun p =>
            (p.path, p.methods.map fun m => (m.name, m.verb, m.successCode))) =
          [[("/x", [("O", .get, 200), ("P", .get, 201), ("O", .get, 200)])]] ∧
        resolution.diagnostics.map Diagnostic.code = [.unsupportedHttpVerb] := by
  have computed : (resolve boundListing "a" {}).toOption.any (fun resolution =>
      resolution.model.interfaces.map (fun interface => interface.httpPaths.map fun p =>
          (p.path, p.methods.map fun m => (m.name, m.verb, m.successCode))) ==
        [[("/x", [("O", .get, 200), ("P", .get, 201), ("O", .get, 200)])]] &&
      resolution.diagnostics.map Diagnostic.code == [.unsupportedHttpVerb]) = true := by
    decide +kernel
  obtain ⟨known, found, computed⟩ := (Option.any_eq_true _ _).mp computed
  obtain ⟨paths, reports⟩ := Bool.and_eq_true_iff.mp computed
  have success := Outcome.eq_ok_of_toOption found
  have some : known.model.interfaces ≠ [] := by
    intro none
    simp [none] at paths
  obtain ⟨events, accepted⟩ := exists_events_of_model success (.inr some)
  obtain ⟨tree, idl, index, statements, resolution, made, root, indexed, shapes, resolved, -,
    binds⟩ := resolve_bindings accepted "a" {}
  cases success.symm.trans resolved
  exact ⟨events, accepted, tree, idl, index, statements, known, made, root, indexed, shapes,
    resolved, binds, eq_of_beq paths, eq_of_beq reports⟩

/-! ## Traits in front of an operation -/

/-- The category of what a statement declares, and the binding that the traits in front of it
give. -/
def ShapeStatement.binding? (statement : ShapeStatement) :
    Except Defect (ShapeCategory × Option HttpBinding) := do
  let category ← ShapeCategory.ofDecl (← ShapeStatement.shape statement)
  let traits ← Trait.ofStatements (← ShapeStatement.traits statement)
  return (category, HttpBinding.ofTraits? traits)

/-- The reader of a statement sees the binding among the traits it declares. -/
theorem ShapeStatement.DeclaresShape.binding?_eq {statement : ShapeStatement}
    {record : ShapeRecord} {traits : List Trait}
    (declares : ShapeStatement.DeclaresShape statement record traits) :
    ShapeStatement.binding? statement = .ok (record.category, HttpBinding.ofTraits? traits) := by
  obtain ⟨_, _, part, -, -, -, readPart, readTraits⟩ := declares.traits
  unfold binding?
  rw [declares.shape, readPart]
  simp only [Outcome.ok_bind, declares.category, readTraits]
  rfl

/-- An operation with a binding in front of it, and a later structure of the same name. -/
def boundNamesake : String :=
  "namespace a\nservice V \x7b operations: [O] \x7d\n@http(method: \"GET\", uri: \"/o\")\n" ++
    "operation O \x7b\x7d\nstructure O \x7b\x7d"

/-- The operation is bound to no path, although the trait in front of it binds it. -/
theorem resolve_boundNamesake :
    ∃ tree idl index statements resolution,
      documentTree boundNamesake = .ok (.ok tree) ∧ Idl.ofTree tree = .ok idl ∧
      ShapeIndex.ofIdl idl = .ok index ∧ idl.HasShapes statements ∧
      resolve boundNamesake "a" {} = .ok resolution ∧
      ¬ index.BindsListed (ShapeRecord.HasOwnTraits statements) "a" (.ofText boundNamesake) 200
        resolution := by
  have computed : (resolve boundNamesake "a" {}).toOption.any (fun resolution =>
      resolution.model.interfaces.map (fun interface =>
        (interface.methods.map Method.name, interface.httpPaths)) == [(["O"], [])]) = true := by
    decide +kernel
  have written : (indexed? boundNamesake).any (fun (idl, _) =>
      (Idl.shapeSection idl).toOption.any fun part =>
        (((ShapeSection.statements part).map ShapeStatements.shapes).getD []).all fun statement =>
          (ShapeStatement.binding? statement).toOption.any fun (category, binding) =>
            category != .operation || binding.isSome) = true := by
    decide +kernel
  obtain ⟨known, success, computed⟩ := (Option.any_eq_true _ _).mp computed
  obtain ⟨⟨idl, index⟩, found, written⟩ := (Option.any_eq_true _ _).mp written
  obtain ⟨events, tree, accepted, made, root, indexed, holds⟩ := exists_events_of_indexed? found
  obtain ⟨part, readPart, each⟩ := (Option.any_eq_true _ _).mp written
  obtain ⟨tree', idl', index', model, reports, made', root', indexed', document, -, -, modelled, -,
    resolved⟩ := exists_findings_of_accepted accepted "a" {}
  cases made.symm.trans made'
  cases root.symm.trans root'
  cases indexed.symm.trans indexed'
  cases (Outcome.eq_ok_of_toOption success).symm.trans resolved
  have shapes : idl.HasShapes _ := ⟨part, Outcome.eq_ok_of_toOption readPart, rfl⟩
  have keeps := ShapeIndex.keepsLastShape_ofIdl indexed shapes
  have byName := ShapeIndex.findsByName_ofIdl document holds indexed
  have lists := ShapeIndex.listsMethods_of_resolveModel byName modelled
  refine ⟨tree, idl, index, _, _, made, root, indexed, shapes, resolved, fun binds => ?_⟩
  -- There is one interface, with a method for the operation and without paths.
  obtain ⟨interface, alone, both⟩ := List.map_eq_singleton_iff.mp (eq_of_beq computed)
  obtain ⟨methods, paths⟩ := Prod.mk.inj both
  unfold ShapeIndex.BindsListed at binds
  rw [alone] at binds
  rw [show model.interfaces = [interface] from alone] at lists
  generalize index.records .service = services at binds lists
  cases lists with
  | cons lists none =>
    cases binds with
    | cons binds _ =>
      obtain ⟨operations, listed, names⟩ := lists
      obtain ⟨operations', listed', binds⟩ := binds
      obtain rfl := listed.unique byName listed'
      rw [methods] at names
      obtain ⟨operation, rfl, -⟩ := List.map_eq_singleton_iff.mp names.symm
      have member := listed.mem_records operation (List.mem_singleton_self _)
      obtain ⟨earlier, statement, later, split, ⟨-, own, declares⟩, -⟩ :=
        First.exists_append_of_reverse (keeps.hasLastShape holds member)
      have isIn : statement ∈ earlier ++ statement :: later := by simp
      rw [← split] at isIn
      have given := List.all_eq_true.mp each statement isIn
      rw [declares.binding?_eq, (holds.isDeclaredIn member).2] at given
      obtain ⟨binding, given⟩ := Option.isSome_iff_exists.mp given
      obtain ⟨_, _, part, -, -, -, readPart, readTraits⟩ := declares.traits
      have bound : ShapeRecord.IsBound (ShapeRecord.HasOwnTraits _) operation
          (operation, binding) :=
        ⟨rfl, own, ⟨statement, isIn, part, declares.shape, readPart, readTraits⟩,
          HttpBinding.ofTraits?_eq_some_iff.mp given⟩
      exact binds.httpPaths_ne_nil (List.mem_singleton_self _) bound paths

end ServiceIdl
