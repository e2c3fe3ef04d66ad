import ServiceIdl.Proofs.Model.Binding
import ServiceIdl.Proofs.Model.Version
import ServiceIdl.Proofs.Resolve.Listings
import ServiceIdl.Proofs.Resolve.Options

/-!
# Title and major version

The title and the major version of a model come from the first service of the document: its last
`title` trait, and the number that its last `version` begins with. What the service does not give
is filled from the name of its interface and from the options. A document without services has
its namespace as the title of its model (`ShapeIndex.HasHeader`).

As with the paths of operations, the traits of a service are those of the last shape statement with
its name (`resolve_header`), and so a later shape of another category can take the title away
(`resolve_titledNamesake`).
-/

namespace ServiceIdl

open Reporting (bind_eq_ok_iff)

/-! ## What is asked of a header -/

/-- What is given, or the default if nothing is. -/
def GivenOr {α : Type} (gives : α → Prop) (default a : α) : Prop :=
  gives a ∨ (∀ b, ¬ gives b) ∧ a = default

/-- The last `title` trait of these is one text. -/
def Trait.GiveTitle (traits : List Trait) (title : String) : Prop :=
  ∃ t, IsLast (fun t => t.id = "title") traits t ∧ t.body = some (.value (.string title))

/-- The title and the major version of a model are those that the first service gives by these
traits and by its body. -/
inductive ShapeIndex.HasHeader (index : ShapeIndex) (idl : Idl)
    (has : ShapeRecord → List Trait → Prop) (options : Options) (title : String)
    (majorVersion : Nat) : Prop
  | unserved :
    index.records .service = [] → GivenOr idl.HasNamespace "" title →
    majorVersion = options.defaultMajorVersion → HasHeader index idl has options title majorVersion
  | served {service : ShapeRecord} {others : List ShapeRecord} {traits : List Trait} :
    index.records .service = service :: others → has service traits →
    GivenOr (Trait.GiveTitle traits) (options.interfaceName service.name) title →
    GivenOr service.HasMajorVersion options.defaultMajorVersion majorVersion →
    HasHeader index idl has options title majorVersion

/-! ## What is given -/

section GivenOr

variable {α : Type} {gives : α → Prop} {default a b : α}

/-- What is given, or the default, is unique if what is given is. -/
theorem GivenOr.unique (once : ∀ a b, gives a → gives b → a = b) (left : GivenOr gives default a)
    (right : GivenOr gives default b) : a = b := by
  rcases left with given | ⟨absent, rfl⟩
  · rcases right with given' | ⟨absent, -⟩
    · exact once a b given given'
    · exact absurd given (absent a)
  · rcases right with given | ⟨-, rfl⟩
    · exact absurd given (absent b)
    · rfl

/-- What a look-up finds, or else the default. -/
theorem givenOr_getD {found : Option α} (known : ∀ a, found = some a ↔ gives a) (default : α) :
    GivenOr gives default (found.getD default) := by
  cases found with
  | none => exact .inr ⟨fun a given => by simpa using (known a).mpr given, rfl⟩
  | some a => exact .inl ((known a).mp rfl)

end GivenOr

theorem Idl.HasNamespace.unique {idl : Idl} (space other : String)
    (left : idl.HasNamespace space) (right : idl.HasNamespace other) : space = other := by
  obtain ⟨_, _, _, readShapes, spaced, readWord, rfl⟩ := left
  obtain ⟨_, _, _, readShapes', spaced', readWord', rfl⟩ := right
  cases readShapes.symm.trans readShapes'
  cases spaced.symm.trans spaced'
  cases readWord.symm.trans readWord'
  rfl

/-- The last `title` trait, read as one text. -/
theorem Trait.giveTitle_iff {traits : List Trait} {title : String} :
    Trait.GiveTitle traits title ↔
      ((Trait.find? traits "title").bind Trait.value?).bind Value.string? = some title := by
  unfold GiveTitle find? value?
  simp only [Option.bind_eq_some_iff, find?_reverse_eq_some_iff, Value.string?_eq_some_iff]
  constructor
  · rintro ⟨t, last, given⟩
    exact ⟨_, ⟨t, last, _, given, rfl⟩, rfl⟩
  · rintro ⟨_, ⟨t, last, body, given, value⟩, rfl⟩
    cases body with
    | value =>
      cases value
      exact ⟨t, last, given⟩
    | entries => cases value

theorem Trait.GiveTitle.unique {traits : List Trait} (title other : String)
    (left : Trait.GiveTitle traits title) (right : Trait.GiveTitle traits other) :
    title = other :=
  Option.some.inj ((Trait.giveTitle_iff.mp left).symm.trans (Trait.giveTitle_iff.mp right))

theorem ShapeRecord.HasMajorVersion.unique {service : ShapeRecord} (n m : Nat)
    (left : service.HasMajorVersion n) (right : service.HasMajorVersion m) : n = m := by
  obtain ⟨_, _, _, _, found, readBody, last, readValue, begins, -⟩ := left
  obtain ⟨_, _, _, _, found', readBody', last', readValue', begins', -⟩ := right
  cases found.symm.trans found'
  cases readBody.symm.trans readBody'
  cases NodeObject.HasLast.unique last last'
  cases readValue.symm.trans readValue'
  exact begins.unique begins'

namespace ShapeIndex

variable {index : ShapeIndex} {lines : LineIndex} {path : String} {options : Options}
  {record : ShapeRecord} {reports : List Report}

/-! ## Models -/

/-- The first service gives the header of a model. -/
theorem resolveModel_header {model : ServiceModel}
    (success : index.resolveModel lines path options = .ok (model, reports)) :
    ∃ services own,
      (index.records .service).mapM (index.resolveService lines options) = .ok (services, own) ∧
      model.title = ServiceModel.titleFrom (services.map Prod.snd).head? index.namespaceName ∧
      model.majorVersion =
        ServiceModel.majorVersionFrom (services.map Prod.snd).head?
          options.defaultMajorVersion := by
  obtain ⟨services, own, _, served, success, -⟩ := bind_eq_ok_iff.mp success
  obtain ⟨_, _, _, -, success, -⟩ := bind_eq_ok_iff.mp success
  obtain ⟨_, _, _, -, success, -⟩ := bind_eq_ok_iff.mp success
  obtain ⟨_, _, _, -, final, -⟩ := bind_eq_ok_iff.mp success
  cases final
  exact ⟨services, own, served, rfl, rfl⟩

/-- Title and version of a model are those of its first service, or the defaults. -/
theorem hasHeader_of_resolveModel {idl : Idl} {has : ShapeRecord → List Trait → Prop}
    (named : ∀ space, index.namespaceName = some space ↔ idl.HasNamespace space)
    (traits : ∀ service ∈ index.records .service, has service (index.traitsOf service.name))
    {model : ServiceModel}
    (success : index.resolveModel lines path options = .ok (model, reports)) :
    index.HasHeader idl has options model.title model.majorVersion := by
  obtain ⟨services, own, served, title, version⟩ := resolveModel_header success
  rw [title, version]
  cases records : index.records .service with
  | nil =>
    rw [records] at served
    cases served
    exact .unserved records (givenOr_getD named "") rfl
  | cons service others =>
    rw [records, List.mapM_cons] at served
    obtain ⟨⟨interface, header⟩, _, _, first, served, -⟩ := bind_eq_ok_iff.mp served
    obtain ⟨rest, _, _, -, final, -⟩ := bind_eq_ok_iff.mp served
    cases final
    have said := headerOf_resolveService first
    obtain ⟨operations, _, _, -, made⟩ := exists_interfaceOf first
    obtain ⟨-, -, -, name, -⟩ := interfaceOf_spec made
    refine .served records (traits service (by rw [records]; exact List.mem_cons_self)) ?_ ?_
    · change GivenOr _ _ (header.title.getD header.interface)
      rw [said.title, said.interface, name]
      exact givenOr_getD (fun _ => Trait.giveTitle_iff.symm) _
    · exact givenOr_getD said.version _

/-! ## A header is determined -/

/-- At most one title and one version follow from what the first service gives. -/
theorem HasHeader.unique {idl : Idl} {has : ShapeRecord → List Trait → Prop}
    (once : ∀ service traits traits', has service traits → has service traits' → traits = traits')
    {title title' : String} {majorVersion majorVersion' : Nat}
    (left : index.HasHeader idl has options title majorVersion)
    (right : index.HasHeader idl has options title' majorVersion') :
    title = title' ∧ majorVersion = majorVersion' := by
  cases left with
  | unserved none named version =>
    cases right with
    | unserved _ named' version' =>
      exact ⟨named.unique Idl.HasNamespace.unique named', version.trans version'.symm⟩
    | served records => cases none.symm.trans records
  | served records given titled version =>
    cases right with
    | unserved none => cases none.symm.trans records
    | served records' given' titled' version' =>
      cases records.symm.trans records'
      cases once _ _ _ given given'
      exact ⟨titled.unique Trait.GiveTitle.unique titled',
        version.unique ShapeRecord.HasMajorVersion.unique version'⟩

end ShapeIndex

/-! ## Documents -/

/-- The title and the major version of a model are those that the first service gives, by its body
and by the traits in front of the last shape statement with its name. -/
theorem resolve_header {text : String} {events : List Event}
    (accepted : documentEvents text = .ok events) (path : String) (options : Options) :
    ∃ tree idl index statements resolution,
      documentTree text = .ok (.ok tree) ∧ Idl.ofTree tree = .ok idl ∧
      ShapeIndex.ofIdl idl = .ok index ∧ idl.HasShapes statements ∧
      resolve text path options = .ok resolution ∧
      ∀ title majorVersion,
        index.HasHeader idl (fun service => HasLastTraits statements service.name) options title
            majorVersion ↔
          title = resolution.model.title ∧ majorVersion = resolution.model.majorVersion := by
  obtain ⟨tree, idl, index, model, reports, made, -, root, indexed, holds, modelled, resolved⟩ :=
    exists_model_of_accepted accepted path options
  obtain ⟨statements, shapes⟩ := ShapeIndex.exists_hasShapes indexed
  have keeps := ShapeIndex.keepsLast_ofIdl indexed shapes
  have given : index.HasHeader idl (fun service => HasLastTraits statements service.name) options
      model.title model.majorVersion :=
    ShapeIndex.hasHeader_of_resolveModel (fun _ => ShapeIndex.namespaceName_eq_some_iff indexed)
      (fun _ member => ShapeIndex.hasLastTraits holds keeps member) modelled
  refine ⟨tree, idl, index, statements, _, made, root, indexed, shapes, resolved,
    fun title majorVersion => ⟨fun header => ?_, ?_⟩⟩
  · have once (service : ShapeRecord) (traits traits' : List Trait)
        (last : HasLastTraits statements service.name traits)
        (last' : HasLastTraits statements service.name traits') : traits = traits' :=
      last.unique last'
    exact header.unique once given
  · rintro ⟨rfl, rfl⟩
    exact given

/-- Two services, of which the first has two titles and two versions. -/
def titledServices : String :=
  "namespace a\n@title(\"One\") @title(\"Two\")\n" ++
    "service V \x7b version: \"1\", \"version\": \" v042-rc \" \x7d\n" ++
    "@title(\"Three\")\nservice W \x7b version: \"3\" \x7d"

/-- Of two titles and of two versions of the first service the last count, the version trimmed and
without its mark. -/
theorem resolve_header_titledServices :
    ∃ events, documentEvents titledServices = .ok events ∧
      ∃ tree idl index statements resolution,
        documentTree titledServices = .ok (.ok tree) ∧ Idl.ofTree tree = .ok idl ∧
        ShapeIndex.ofIdl idl = .ok index ∧ idl.HasShapes statements ∧
        resolve titledServices "a" {} = .ok resolution ∧
        (∀ title majorVersion,
          index.HasHeader idl (fun service => HasLastTraits statements service.name) {} title
              majorVersion ↔
            title = resolution.model.title ∧ majorVersion = resolution.model.majorVersion) ∧
        resolution.model.title = "Two" ∧ resolution.model.majorVersion = 42 := by
  have computed : (resolve titledServices "a" {}).toOption.any (fun resolution =>
      resolution.model.interfaces.length == 2 && resolution.model.title == "Two" &&
        resolution.model.majorVersion == 42) = true := by
    decide +kernel
  obtain ⟨known, found, computed⟩ := (Option.any_eq_true _ _).mp computed
  simp only [Bool.and_eq_true, beq_iff_eq] at computed
  obtain ⟨⟨interfaces, title⟩, version⟩ := computed
  have success := Outcome.eq_ok_of_toOption found
  have some : known.model.interfaces ≠ [] := by
    intro none
    simp [none] at interfaces
  obtain ⟨events, accepted⟩ := exists_events_of_model success (.inr some)
  obtain ⟨tree, idl, index, statements, resolution, made, root, indexed, shapes, resolved,
    header⟩ := resolve_header accepted "a" {}
  cases success.symm.trans resolved
  exact ⟨events, accepted, tree, idl, index, statements, known, made, root, indexed, shapes,
    resolved, header, title, version⟩

/-! ## Traits in front of a service -/

/-- The category of what a statement declares, and the title that the traits in front of it give. -/
def ShapeStatement.title? (statement : ShapeStatement) :
    Except Defect (ShapeCategory × Option String) := do
  let category ← ShapeCategory.ofDecl (← ShapeStatement.shape statement)
  let traits ← Trait.ofStatements (← ShapeStatement.traits statement)
  return (category, ((Trait.find? traits "title").bind Trait.value?).bind Value.string?)

/-- A service with a title in front of it, and a later structure of the same name. -/
def titledNamesake : String :=
  "namespace a\n@title(\"T\")\nservice V \x7b\x7d\nstructure V \x7b\x7d"

/-- The title of the model is the name of the interface, although the trait in front of the service
gives another one. -/
theorem resolve_titledNamesake :
    ∃ tree idl index statements resolution,
      documentTree titledNamesake = .ok (.ok tree) ∧ Idl.ofTree tree = .ok idl ∧
      ShapeIndex.ofIdl idl = .ok index ∧ idl.HasShapes statements ∧
      resolve titledNamesake "a" {} = .ok resolution ∧ resolution.model.title = "V" ∧
      ¬ index.HasHeader idl (ShapeRecord.HasOwnTraits statements) {} resolution.model.title
        resolution.model.majorVersion := by
  have computed : (resolve titledNamesake "a" {}).toOption.any (fun resolution =>
      resolution.model.title == "V") = true := by
    decide +kernel
  have written : (indexed? titledNamesake).any (fun (idl, index) =>
      (index.records .service).length == 1 &&
        (Idl.shapeSection idl).toOption.any fun part =>
          (((ShapeSection.statements part).map ShapeStatements.shapes).getD []).all fun statement =>
            (ShapeStatement.title? statement).toOption.any fun (category, title) =>
              category != .service || title == some "T") = true := by
    decide +kernel
  obtain ⟨known, success, computed⟩ := (Option.any_eq_true _ _).mp computed
  obtain ⟨⟨idl, index⟩, found, written⟩ := (Option.any_eq_true _ _).mp written
  obtain ⟨events, tree, accepted, made, root, indexed, holds⟩ := exists_events_of_indexed? found
  obtain ⟨one, written⟩ := Bool.and_eq_true_iff.mp written
  obtain ⟨part, readPart, each⟩ := (Option.any_eq_true _ _).mp written
  have shapes : idl.HasShapes _ := ⟨part, Outcome.eq_ok_of_toOption readPart, rfl⟩
  have title := eq_of_beq computed
  refine ⟨tree, idl, index, _, known, made, root, indexed, shapes,
    Outcome.eq_ok_of_toOption success, title, fun header => ?_⟩
  cases header with
  | unserved none =>
    rw [none] at one
    cases one
  | @served service _ traits records own titled =>
    have member : service ∈ index.records .service := by
      rw [records]
      exact List.mem_cons_self
    obtain ⟨declared, filed⟩ := holds.isDeclaredIn member
    obtain ⟨statement, isIn, part', readDecl, readPart', readTraits⟩ := own
    -- What is computed of every statement holds of the one that declares the service.
    have given := List.all_eq_true.mp each statement isIn
    have read : ShapeStatement.title? statement = .ok (service.category,
        ((Trait.find? traits "title").bind Trait.value?).bind Value.string?) := by
      unfold ShapeStatement.title?
      rw [readDecl, readPart']
      simp only [Outcome.ok_bind, declared.category, readTraits]
      rfl
    rw [read, filed] at given
    have found : (((Trait.find? traits "title").bind Trait.value?).bind Value.string? == some "T") =
        true := given
    have given : Trait.GiveTitle traits "T" := Trait.giveTitle_iff.mpr (eq_of_beq found)
    rw [title] at titled
    rcases titled with other | ⟨none, -⟩
    · exact absurd (given.unique _ _ other) (by decide)
    · exact none _ given

end ServiceIdl
