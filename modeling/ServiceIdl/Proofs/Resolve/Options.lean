import ServiceIdl.Proofs.Model.Log
import ServiceIdl.Proofs.Model.Version
import ServiceIdl.Proofs.Resolve.Steps
import ServiceIdl.Proofs.Resolve.Targets

/-!
# What the caller chooses

Two resolutions of one text, under any two paths and any two options, agree on everything that
the text says (`Resolution.AgreesWith`). Apart from the paths themselves and the names of
interfaces, they differ only where the text leaves a gap that an option fills: a title, a major
version or a success code that is not written. Above all they find the same things at the same
places, in the same order.

Only services look at the options, so the two runs are followed side by side up to there
(`Reporting.Alike`), and everything else in them is the same computation.
-/

namespace ServiceIdl

open Reporting (bind_eq_ok_iff read_bind_eq_ok_iff)

/-! ## Two runs -/

namespace Reporting

variable {α β γ δ : Type}

/-- If the first computation succeeds, so does the second, with the same reports and a related
value. -/
def Alike (related : α → β → Prop) (first : Reporting α) (second : Reporting β) : Prop :=
  ∀ a reports, first = .ok (a, reports) → ∃ b, second = .ok (b, reports) ∧ related a b

namespace Alike

variable {related : α → β → Prop} {relatedNext : γ → δ → Prop}

theorem refl (computation : Reporting α) : Alike Eq computation computation :=
  fun a _ success => ⟨a, success, rfl⟩

theorem pure {a : α} {b : β} (known : related a b) : Alike related (pure a) (pure b) := by
  intro a' reports success
  cases success
  exact ⟨b, rfl, known⟩

/-- What goes on with two values may use what the first came from. -/
theorem bind {first : Reporting α} {second : Reporting β} {next : α → Reporting γ}
    {next' : β → Reporting δ} (alike : Alike related first second)
    (rest : ∀ a b own, first = .ok (a, own) → related a b →
      Alike relatedNext (next a) (next' b)) :
    Alike relatedNext (first >>= next) (second >>= next') := by
  intro c reports success
  obtain ⟨a, earlier, later, ran, follows, rfl⟩ := bind_eq_ok_iff.mp success
  obtain ⟨b, ran', known⟩ := alike a earlier ran
  obtain ⟨d, follows', known'⟩ := rest a b earlier ran known c later follows
  exact ⟨d, bind_eq_ok_iff.mpr ⟨b, earlier, later, ran', follows', rfl⟩, known'⟩

/-- The same computation in both runs. -/
theorem both {first : Reporting α} {next : α → Reporting γ} {next' : α → Reporting δ}
    (rest : ∀ a, Alike relatedNext (next a) (next' a)) :
    Alike relatedNext (first >>= next) (first >>= next') := by
  refine bind (refl first) fun a b _ _ same => ?_
  cases same
  exact rest a

/-- Steps over one list that are alike element by element. -/
theorem mapM {f : γ → Reporting α} {g : γ → Reporting β} {cs : List γ}
    (each : ∀ c ∈ cs, Alike related (f c) (g c)) :
    Alike (List.Forall₂ related) (cs.mapM f) (cs.mapM g) := by
  induction cs with
  | nil => exact pure .nil
  | cons c cs ih =>
    rw [List.mapM_cons, List.mapM_cons]
    refine (each c List.mem_cons_self).bind fun a b _ _ head => ?_
    refine (ih fun c' later => each c' (List.mem_cons_of_mem c later)).bind fun as bs _ _ tail => ?_
    exact pure (.cons head tail)

end Alike

end Reporting

/-! ## Gaps that options fill -/

/-- The index of a text, if it is a document. -/
def ShapeIndex.ofText? (text : String) : Option ShapeIndex := (indexed? text).map Prod.snd

theorem ShapeIndex.ofText?_of_rejected {text : String} {rejection : Rejection}
    (rejected : documentEvents text = .error rejection) : ShapeIndex.ofText? text = none := by
  unfold ofText? indexed? documentTree
  rw [rejected]
  rfl

theorem ShapeIndex.ofText?_eq_some {text : String} {tree : Tree} {idl : Idl} {index : ShapeIndex}
    (made : documentTree text = .ok (.ok tree)) (root : Idl.ofTree tree = .ok idl)
    (indexed : ShapeIndex.ofIdl idl = .ok index) : ShapeIndex.ofText? text = some index := by
  unfold ofText? indexed?
  rw [made]
  simp only [Except.toOption, Option.bind_some, root, indexed, Outcome.ok_bind]
  rfl

/-- The last entry `version` of the service's body is a text that begins with a number of at most
32 bits. -/
def ShapeRecord.HasMajorVersion (service : ShapeRecord) (n : Nat) : Prop :=
  ∃ shape body value version,
    service.entity? = some shape ∧ EntityShape.body shape = .ok body ∧
    NodeObject.HasLast body "version" value ∧ Value.ofNode value = .ok (.string version) ∧
    BeginsWithNumber version.toList n ∧ n < 0x100000000

/-- The document binds the operation without a success code. -/
def LacksCode (document : Option ShapeIndex) (operation : String) : Prop :=
  ∃ index binding, document = some index ∧
    HttpBinding.ofTraits? (index.traitsOf operation) = some binding ∧ binding.code = none

/-- The first service of the document has no title. -/
def LacksTitle (document : Option ShapeIndex) : Prop :=
  ∃ index service others, document = some index ∧
    index.records .service = service :: others ∧ index.titleOf? service.name = none

/-- The text is no document, or one without services, or one whose first service gives no
version with a number. -/
def LacksVersion (document : Option ShapeIndex) : Prop :=
  document = none ∨ ∃ index, document = some index ∧
    (index.records .service = [] ∨ ∃ service others,
      index.records .service = service :: others ∧ ∀ n, ¬ service.HasMajorVersion n)

/-- The methods differ at most in the success code, and only if the document gives none. -/
structure HttpMethod.AgreesWith (document : Option ShapeIndex) (m m' : HttpMethod) : Prop where
  fields : m = { m' with successCode := m.successCode }
  code : m.successCode = m'.successCode ∨ LacksCode document m.name

/-- The paths are the same, with methods that agree. -/
structure HttpPath.AgreesWith (document : Option ShapeIndex) (p p' : HttpPath) : Prop where
  path : p.path = p'.path
  methods : List.Forall₂ (HttpMethod.AgreesWith document) p.methods p'.methods

/-- The interfaces differ at most in their names and in success codes. -/
structure Interface.AgreesWith (document : Option ShapeIndex) (i i' : Interface) : Prop where
  httpPaths : List.Forall₂ (HttpPath.AgreesWith document) i.httpPaths i'.httpPaths
  methods : i.methods = i'.methods
  location : i.location = i'.location

/-- The title of the model is the name of its first interface. -/
def ServiceModel.TitleFallsBack (model : ServiceModel) : Prop :=
  ∃ first others, model.interfaces = first :: others ∧ model.title = first.name

/-- The models differ at most in the path, in the names of interfaces, and in what the document
leaves to the options. -/
structure ServiceModel.AgreesWith (document : Option ShapeIndex) (model model' : ServiceModel) :
    Prop where
  interfaces : List.Forall₂ (Interface.AgreesWith document) model.interfaces model'.interfaces
  types : model.types = model'.types
  enums : model.enums = model'.enums
  unions : model.unions = model'.unions
  title : model.title = model'.title ∨
    LacksTitle document ∧ model.TitleFallsBack ∧ model'.TitleFallsBack
  majorVersion : model.majorVersion = model'.majorVersion ∨ LacksVersion document

/-- The models agree, and the same is found at the same places in the same order. -/
structure Resolution.AgreesWith (document : Option ShapeIndex) (r r' : Resolution) : Prop where
  model : r.model.AgreesWith document r'.model
  diagnostics : List.Forall₂ (fun d d' => d = { d' with sourcePath := d.sourcePath })
    r.diagnostics r'.diagnostics

/-! ## Paths -/

/-- Changing two tables with the same keys in related ways leaves their values related. -/
theorem Table.forall₂_alter {κ α β : Type} [DecidableEq κ] {related : α → β → Prop}
    {table : Table κ α} {other : Table κ β} {key : κ} {change : Option α → α}
    {change' : Option β → β}
    (alike : List.Forall₂ (fun e e' => e.1 = e'.1 ∧ related e.2 e'.2) table.entries other.entries)
    (absent : related (change none) (change' none))
    (present : ∀ a b, related a b → related (change (some a)) (change' (some b))) :
    List.Forall₂ (fun e e' => e.1 = e'.1 ∧ related e.2 e'.2) (table.alter key change).entries
      (other.alter key change').entries := by
  rcases table with ⟨entries⟩
  rcases other with ⟨entries'⟩
  change List.Forall₂ _ (alterEntries key change entries) (alterEntries key change' entries')
  change List.Forall₂ _ entries entries' at alike
  induction alike with
  | nil => exact .cons ⟨rfl, absent⟩ .nil
  | @cons e e' _ _ head tail ih =>
    obtain ⟨same, known⟩ := head
    unfold alterEntries
    rw [same]
    split
    · exact .cons ⟨rfl, present _ _ known⟩ tail
    · exact .cons ⟨rfl, known⟩ ih

namespace HttpPaths

variable {document : Option ShapeIndex} {lines : LineIndex} {code code' : Nat}

/-- The tables have the same paths, with methods that agree. -/
def AgreesWith (document : Option ShapeIndex) (paths paths' : HttpPaths) : Prop :=
  List.Forall₂ (fun e e' => e.1 = e'.1 ∧ List.Forall₂ (HttpMethod.AgreesWith document) e.2 e'.2)
    paths.entries paths'.entries

/-- A binding adds the same method to both, but for its code. -/
theorem AgreesWith.add {paths paths' : HttpPaths} (agrees : paths.AgreesWith document paths')
    {operation : String} {binding : HttpBinding}
    (known : binding.code = none → LacksCode document operation) :
    (paths.add lines code operation binding).AgreesWith document
      (paths'.add lines code' operation binding) := by
  have added : HttpMethod.AgreesWith document
      ⟨binding.verb, binding.code.getD code, operation, lines.locate binding.span⟩
      ⟨binding.verb, binding.code.getD code', operation, lines.locate binding.span⟩ := by
    refine ⟨rfl, ?_⟩
    cases given : binding.code with
    | none => exact .inr (known given)
    | some own => exact .inl rfl
  refine Table.forall₂_alter agrees (.cons added .nil) fun methods methods' alike => ?_
  exact List.rel_append alike (.cons added .nil)

/-- Bindings of a list keep the tables in agreement. -/
theorem AgreesWith.addAll {paths paths' : HttpPaths} (agrees : paths.AgreesWith document paths')
    {bindings : List (String × HttpBinding)}
    (known : ∀ bound ∈ bindings, bound.2.code = none → LacksCode document bound.1) :
    AgreesWith document
      (bindings.foldl (fun paths (operation, binding) => paths.add lines code operation binding)
        paths)
      (bindings.foldl (fun paths (operation, binding) => paths.add lines code' operation binding)
        paths') := by
  induction bindings generalizing paths paths' with
  | nil => exact agrees
  | cons bound rest ih =>
    obtain ⟨front, behind⟩ := List.forall_mem_cons.mp known
    exact ih (agrees.add front) behind

theorem AgreesWith.toList {paths paths' : HttpPaths} (agrees : paths.AgreesWith document paths') :
    List.Forall₂ (HttpPath.AgreesWith document) paths.toList paths'.toList := by
  unfold HttpPaths.toList
  rw [List.forall₂_map_left_iff, List.forall₂_map_right_iff]
  exact agrees.imp fun e e' known => ⟨known.1, known.2⟩

end HttpPaths

/-! ## Services -/

/-- The body of a service gives the version that is read off it. -/
theorem ShapeRecord.hasMajorVersion_iff {service : ShapeRecord} {shape : EntityShape}
    {body : NodeObject} {version : Option String} (found : service.entity? = some shape)
    (read : EntityShape.body shape = .ok body)
    (readVersion : ShapeIndex.versionOf body = .ok version) (n : Nat) :
    service.HasMajorVersion n ↔ version.bind leadingMajorVersion? = some n := by
  obtain ⟨value?, got, readVersion⟩ := Outcome.bind_eq_ok_iff.mp readVersion
  constructor
  · rintro ⟨_, _, value, text, found', read', last, readText, number⟩
    cases found.symm.trans found'
    cases read.symm.trans read'
    cases (NodeObject.hasLast_iff got value).mp last
    obtain ⟨own, readOwn, final⟩ := Outcome.bind_eq_ok_iff.mp readVersion
    cases final
    cases readText.symm.trans readOwn
    exact leadingMajorVersion?_eq_some_iff.mpr number
  · intro number
    cases value? with
    | none =>
      cases readVersion
      cases number
    | some value =>
      obtain ⟨own, readOwn, final⟩ := Outcome.bind_eq_ok_iff.mp readVersion
      cases final
      have last := (NodeObject.hasLast_iff got value).mpr rfl
      cases own with
      | string text =>
        exact ⟨shape, body, value, text, found, read, last, readOwn,
          leadingMajorVersion?_eq_some_iff.mp number⟩
      | _ => cases number

namespace ShapeIndex

variable {index : ShapeIndex} {lines : LineIndex} {path path' : String}
  {options options' : Options} {record : ShapeRecord} {reports : List Report}

/-- The interfaces of one service agree, and the service says the same about both models but
for the names of the interfaces. -/
structure ServesAlike (document : Option ShapeIndex)
    (service service' : Interface × ServiceHeader) : Prop where
  interface : service.1.AgreesWith document service'.1
  header : service.2 = { service'.2 with interface := service.1.name }
  named : service'.2.interface = service'.1.name

/-- A binding without a code is one of an operation that lacks it in the document. -/
theorem lacksCode_of_mem_bindings {operations : List ShapeRecord} {bound : String × HttpBinding}
    (member : bound ∈ index.bindings operations) (absent : bound.2.code = none) :
    LacksCode (some index) bound.1 := by
  obtain ⟨operation, -, found⟩ := List.mem_filterMap.mp member
  obtain ⟨binding, traits, rfl⟩ := Option.map_eq_some_iff.mp found
  exact ⟨index, binding, rfl, traits, absent⟩

theorem alike_interfaceOf (operations : List ShapeRecord) (version : Option String) :
    Reporting.Alike (ServesAlike (some index))
      (index.interfaceOf lines options record operations version)
      (index.interfaceOf lines options' record operations version) := by
  have paths : HttpPaths.AgreesWith (some index) Table.empty Table.empty := .nil
  refine .both fun _ => .both fun methods => .pure ⟨⟨?_, rfl, rfl⟩, rfl, rfl⟩
  exact (paths.addAll fun _ member => lacksCode_of_mem_bindings member).toList

/-- One service, served under two sets of options. -/
theorem alike_resolveService :
    Reporting.Alike (ServesAlike (some index)) (index.resolveService lines options record)
      (index.resolveService lines options' record) := by
  cases form : record.entity? with
  | none =>
    rw [resolveService_of_none form, resolveService_of_none form]
    exact alike_interfaceOf [] none
  | some shape =>
    rw [resolveService_of_some form, resolveService_of_some form]
    exact .both fun (operations, version) => alike_interfaceOf operations version

/-- What a service says about the model is what the document says about the service. -/
structure HeaderOf (index : ShapeIndex) (record : ShapeRecord)
    (service : Interface × ServiceHeader) : Prop where
  interface : service.2.interface = service.1.name
  title : service.2.title = index.titleOf? record.name
  version : ∀ n, service.2.version.bind leadingMajorVersion? = some n ↔ record.HasMajorVersion n

/-- The header of a service is read off its record. -/
theorem headerOf_resolveService {service : Interface × ServiceHeader}
    (success : index.resolveService lines options record = .ok (service, reports)) :
    index.HeaderOf record service := by
  have made : ∀ operations version own,
      index.interfaceOf lines options record operations version =
        .ok (service, own) →
      service.2 = ⟨service.1.name, index.titleOf? record.name, version⟩ := by
    intro operations version own success
    obtain ⟨_, _, _, -, success, -⟩ := bind_eq_ok_iff.mp success
    obtain ⟨methods, own, _, -, final, -⟩ := bind_eq_ok_iff.mp success
    cases final
    rfl
  cases form : record.entity? with
  | none =>
    rw [resolveService_of_none form] at success
    have header := made _ _ _ success
    refine ⟨congrArg ServiceHeader.interface header, congrArg ServiceHeader.title header, ?_⟩
    intro n
    rw [header]
    constructor
    · intro number
      cases number
    · rintro ⟨_, _, _, _, found, -⟩
      cases form.symm.trans found
  | some shape =>
    rw [resolveService_of_some form] at success
    obtain ⟨⟨operations, version⟩, _, own, listed, success, -⟩ := bind_eq_ok_iff.mp success
    have header := made _ _ _ success
    obtain ⟨body, read, listed⟩ := read_bind_eq_ok_iff.mp listed
    obtain ⟨_, _, _, -, listed, -⟩ := bind_eq_ok_iff.mp listed
    obtain ⟨version', readVersion, final⟩ := read_bind_eq_ok_iff.mp listed
    cases final
    refine ⟨congrArg ServiceHeader.interface header, congrArg ServiceHeader.title header, ?_⟩
    intro n
    rw [header]
    exact (ShapeRecord.hasMajorVersion_iff form read readVersion n).symm

/-! ## Models -/

section Headers

variable {services services' : List (Interface × ServiceHeader)}
  (headers : List.Forall₂ index.HeaderOf (index.records .service) services)
  (alike : List.Forall₂ (ServesAlike (some index)) services services')

include headers alike

/-- Without a title of the first service, each model has the name of its first interface. -/
theorem title_agrees (namespaceName : Option String) :
    ServiceModel.titleFrom (services.map Prod.snd).head? namespaceName =
        ServiceModel.titleFrom (services'.map Prod.snd).head? namespaceName ∨
      LacksTitle (some index) ∧
        (∃ first others, services.map Prod.fst = first :: others ∧
          ServiceModel.titleFrom (services.map Prod.snd).head? namespaceName = first.name) ∧
        ∃ first others, services'.map Prod.fst = first :: others ∧
          ServiceModel.titleFrom (services'.map Prod.snd).head? namespaceName = first.name := by
  cases alike with
  | nil => exact .inl rfl
  | @cons service service' _ _ serves _ =>
    obtain ⟨record, others, said, -, records⟩ := List.forall₂_cons_right_iff.mp headers
    have title : service'.2.title = service.2.title :=
      (congrArg ServiceHeader.title serves.header).symm
    cases given : service.2.title with
    | some own =>
      left
      simp [ServiceModel.titleFrom, title, given]
    | none =>
      have lacks : LacksTitle (some index) :=
        ⟨index, record, others, rfl, records, said.title.symm.trans given⟩
      refine .inr ⟨lacks, ⟨service.1, _, rfl, ?_⟩, ⟨service'.1, _, rfl, ?_⟩⟩
      · simp [ServiceModel.titleFrom, given, said.interface]
      · simp [ServiceModel.titleFrom, title, given, serves.named]

/-- A version of the first service counts under any options. -/
theorem majorVersion_agrees (default default' : Nat) :
    ServiceModel.majorVersionFrom (services.map Prod.snd).head? default =
        ServiceModel.majorVersionFrom (services'.map Prod.snd).head? default' ∨
      LacksVersion (some index) := by
  cases alike with
  | nil => exact .inr (.inr ⟨index, rfl, .inl (List.forall₂_nil_right_iff.mp headers)⟩)
  | @cons service service' _ _ serves _ =>
    obtain ⟨record, others, said, -, records⟩ := List.forall₂_cons_right_iff.mp headers
    have version : service'.2.version = service.2.version :=
      (congrArg ServiceHeader.version serves.header).symm
    cases given : service.2.version.bind leadingMajorVersion? with
    | some n =>
      left
      simp [ServiceModel.majorVersionFrom, version, given]
    | none =>
      refine .inr (.inr ⟨index, rfl, .inr ⟨record, others, records, fun n gives => ?_⟩⟩)
      cases given.symm.trans ((said.version n).mpr gives)

end Headers

/-- The models of one index agree, under any paths and options, and the same is found. -/
theorem alike_resolveModel :
    Reporting.Alike (ServiceModel.AgreesWith (some index))
      (index.resolveModel lines path options) (index.resolveModel lines path' options') := by
  have served : Reporting.Alike (List.Forall₂ (ServesAlike (some index)))
      ((index.records .service).mapM (index.resolveService lines options))
      ((index.records .service).mapM (index.resolveService lines options')) :=
    .mapM fun _ _ => alike_resolveService
  refine served.bind fun services services' own success alike => ?_
  refine .both fun types => .both fun enums => .both fun _ => .pure ?_
  have headers : List.Forall₂ index.HeaderOf (index.records .service) services :=
    Reporting.forall₂_of_mapM_eq_ok (fun _ _ _ _ => headerOf_resolveService) success
  refine ⟨?_, rfl, rfl, rfl, title_agrees headers alike index.namespaceName,
    majorVersion_agrees headers alike _ _⟩
  rw [List.forall₂_map_left_iff, List.forall₂_map_right_iff]
  exact alike.imp fun _ _ serves => serves.interface

end ShapeIndex

/-! ## Resolutions -/

/-- Whatever a document is called, the diagnostics of the same reports differ in nothing else. -/
theorem Log.forall₂_entries_insertReports (path path' : String) (lines : LineIndex)
    (reports : List Report) :
    List.Forall₂ (fun d d' => d = { d' with sourcePath := d.sourcePath })
      (Log.empty.insertReports path lines reports).entries
      (Log.empty.insertReports path' lines reports).entries := by
  rw [Log.entries_insertReports_empty, Log.entries_insertReports_empty]
  have same : ∀ a b, Diagnostic.ofReport path lines a = .ofReport path lines b ↔
      Diagnostic.ofReport path' lines a = .ofReport path' lines b := by
    intro a b
    simp [Diagnostic.ofReport, Diagnostic.located]
  refine (forall₂_eraseDups_map same reports).imp ?_
  rintro _ _ ⟨report, rfl, rfl⟩
  rfl

/-- Two resolutions of one text agree but for the path, the names of interfaces, and what the
text leaves to the options. -/
theorem resolve_agreesWith (text path path' : String) (options options' : Options) :
    ∃ r r', resolve text path options = .ok r ∧ resolve text path' options' = .ok r' ∧
      r.AgreesWith (ShapeIndex.ofText? text) r' := by
  cases accepted : documentEvents text with
  | error rejection =>
    refine ⟨_, _, resolve_of_rejected accepted path options,
      resolve_of_rejected accepted path' options', ⟨.nil, rfl, rfl, rfl, .inl rfl, ?_⟩,
      .cons rfl .nil⟩
    exact .inr (.inl (ShapeIndex.ofText?_of_rejected accepted))
  | ok events =>
    obtain ⟨tree, idl, index, model, reports, made, -, root, indexed, holds, modelled, resolved⟩ :=
      exists_model_of_accepted accepted path options
    obtain ⟨model', modelled', agrees⟩ :
        ∃ model', index.resolveModel (.ofText text) path' options' = .ok (model', reports) ∧
          model.AgreesWith (some index) model' :=
      ShapeIndex.alike_resolveModel model reports modelled
    rw [ShapeIndex.ofText?_eq_some made root indexed]
    exact ⟨_, _, resolved, resolve_eq made root indexed modelled', agrees,
      Log.forall₂_entries_insertReports path path' _ reports⟩

/-- What a document leaves open is filled by the options of each run. -/
example : ([({}, "a"),
      ({ defaultSuccessCode := 201, serviceSuffix := "", defaultMajorVersion := 2 }, "b")] :
      List (Options × String)).map (fun (options, path) =>
    (resolve
      ("namespace a\nservice TaskService \x7b operations: [O] \x7d\n" ++
        "@http(method: \"GET\", uri: \"/o\")\noperation O \x7b\x7d")
      path options).toOption.map fun resolution =>
        (resolution.model.title, resolution.model.majorVersion,
          resolution.model.interfaces.flatMap fun interface =>
            interface.httpPaths.flatMap fun p => p.methods.map HttpMethod.successCode)) =
      [some ("Task", 1, [200]), some ("TaskService", 2, [201])] := by
  decide +kernel

end ServiceIdl
