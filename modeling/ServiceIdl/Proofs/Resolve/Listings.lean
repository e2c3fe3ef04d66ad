import Mathlib.Data.List.Forall2
import ServiceIdl.Proofs.Model.Log
import ServiceIdl.Proofs.Resolve.Apart
import ServiceIdl.Proofs.Resolve.Integrity
import ServiceIdl.Proofs.Resolve.Spelling

/-!
# The operations that a service lists

A service lists operations by their bare names or by their ids in the namespace of the document,
in the array that is its last entry `operations`. Its interface has a method for each operation
that the document has, in the order of the array and as often as it is listed
(`ShapeIndex.exists_listsOperations`). An id that names none of them is reported where it stands,
once in the whole resolution; anything else in the array is passed over (`resolve_listings`).
-/

namespace ServiceIdl

open Reporting (bind_eq_ok_iff read_bind_eq_ok_iff)

/-! ## Choosing from a list -/

/-- What the elements of a list have to do with, in their order. Those that have to do with
nothing are left out. -/
inductive Chosen {α β : Type} (holds : α → β → Prop) : List α → List β → Prop
  | nil : Chosen holds [] []
  | keep {a : α} {as : List α} {b : β} {bs : List β} :
    holds a b → Chosen holds as bs → Chosen holds (a :: as) (b :: bs)
  | drop {a : α} {as : List α} {bs : List β} :
    (∀ b, ¬ holds a b) → Chosen holds as bs → Chosen holds (a :: as) bs

namespace Chosen

variable {α β : Type} {holds : α → β → Prop} {as : List α} {bs : List β}

/-- What is found for each element makes up the choice. -/
theorem of_forall₂ {founds : List (Option β)}
    (each : List.Forall₂ (fun a found => ∀ b, found = some b ↔ holds a b) as founds) :
    Chosen holds as (founds.filterMap id) := by
  induction each with
  | nil => exact .nil
  | @cons a found as founds head _ ih =>
    cases found with
    | none =>
      rw [List.filterMap_cons_none rfl]
      exact .drop (fun b held => nomatch (head b).mpr held) ih
    | some b =>
      rw [List.filterMap_cons_some (f := id) (b := b) rfl]
      exact .keep ((head b).mp rfl) ih

/-- What a function gives for each element makes up the choice. -/
theorem of_filterMap {f : α → Option β} (each : ∀ a ∈ as, ∀ b, f a = some b ↔ holds a b) :
    Chosen holds as (as.filterMap f) := by
  have founds : List.Forall₂ (fun a found => ∀ b, found = some b ↔ holds a b) as (as.map f) :=
    List.forall₂_map_right_iff.mpr (List.forall₂_same.mpr each)
  have chosen := of_forall₂ founds
  rwa [List.filterMap_map] at chosen

/-- The relation may be replaced by an equivalent one. -/
theorem congr {holds' : α → β → Prop} (chosen : Chosen holds as bs)
    (alike : ∀ a b, holds a b ↔ holds' a b) : Chosen holds' as bs := by
  induction chosen with
  | nil => exact .nil
  | keep held _ ih => exact .keep ((alike _ _).mp held) ih
  | drop nothing _ ih => exact .drop (fun b held => nothing b ((alike _ _).mpr held)) ih

theorem exists_mem (chosen : Chosen holds as bs) {b : β} (member : b ∈ bs) :
    ∃ a ∈ as, holds a b := by
  induction chosen with
  | nil => cases member
  | keep held _ ih =>
    rcases List.mem_cons.mp member with rfl | later
    · exact ⟨_, List.mem_cons_self, held⟩
    · obtain ⟨a, inside, held'⟩ := ih later
      exact ⟨a, List.mem_cons_of_mem _ inside, held'⟩
  | drop _ _ ih =>
    obtain ⟨a, inside, held⟩ := ih member
    exact ⟨a, List.mem_cons_of_mem _ inside, held⟩

/-- An element that has to do with anything is kept. -/
theorem exists_of_mem (chosen : Chosen holds as bs) {a : α} {b : β} (member : a ∈ as)
    (held : holds a b) : ∃ c ∈ bs, holds a c := by
  induction chosen with
  | nil => cases member
  | @keep a' _ c _ held' _ ih =>
    rcases List.mem_cons.mp member with rfl | later
    · exact ⟨c, List.mem_cons_self, held'⟩
    · obtain ⟨d, inside, found⟩ := ih later
      exact ⟨d, List.mem_cons_of_mem _ inside, found⟩
  | drop nothing _ ih =>
    rcases List.mem_cons.mp member with rfl | later
    · exact absurd held (nothing b)
    · exact ih later

/-- If an element has to do with one thing at most, there is one choice. -/
theorem unique (functional : ∀ a b c, holds a b → holds a c → b = c) {cs : List β}
    (left : Chosen holds as bs) (right : Chosen holds as cs) : bs = cs := by
  induction left generalizing cs with
  | nil =>
    cases right
    rfl
  | keep held _ ih =>
    cases right with
    | keep held' right => rw [functional _ _ _ held held', ih right]
    | drop nothing _ => exact absurd held (nothing _)
  | drop nothing _ ih =>
    cases right with
    | keep held' _ => exact absurd held' (nothing _)
    | drop _ right => exact ih right

end Chosen

/-! ## Listings -/

theorem NodeValue.IsId.unique {node : NodeValue} {id other : String}
    (left : NodeValue.IsId node id) (right : NodeValue.IsId node other) : id = other := by
  rcases left with left | left <;> rcases right with right | right <;>
    cases left.symm.trans right <;> rfl

section Listings

variable {body : NodeObject} {service : ShapeRecord} {elements others : List NodeValue}

theorem NodeObject.HasLast.unique {object : NodeObject} {key : String} {value other : NodeValue}
    (left : NodeObject.HasLast object key value) (right : NodeObject.HasLast object key other) :
    value = other := by
  refine First.unique ?_ left right
  rintro entry value other ⟨_, _, _, read⟩ ⟨_, _, _, read'⟩
  exact Except.ok.inj (read.symm.trans read')

theorem NodeObject.HasListing.unique (left : NodeObject.HasListing body elements)
    (right : NodeObject.HasListing body others) : elements = others := by
  obtain ⟨listing, content, array, last, read, form, rfl⟩ := left
  obtain ⟨listing', content', array', last', read', form', rfl⟩ := right
  cases last.unique last'
  cases read.symm.trans read'
  cases form.symm.trans form'
  rfl

theorem ShapeRecord.hasListing_iff {shape : EntityShape} (form : service.entity? = some shape)
    (read : EntityShape.body shape = .ok body) :
    service.HasListing elements ↔ NodeObject.HasListing body elements := by
  constructor
  · rintro ⟨shape', body', form', read', has⟩
    cases form.symm.trans form'
    cases read.symm.trans read'
    exact has
  · exact fun has => ⟨shape, body, form, read, has⟩

theorem ShapeRecord.HasListing.unique (left : service.HasListing elements)
    (right : service.HasListing others) : elements = others := by
  obtain ⟨shape, body, form, read, has⟩ := left
  exact has.unique ((ShapeRecord.hasListing_iff form read).mp right)

end Listings

namespace ShapeIndex

variable {index : ShapeIndex} {lines : LineIndex} {options : Options} {service : ShapeRecord}
  {reports : List Report}

/-! ## Names of operations -/

/-- The id is the name, bare or in the namespace of the document. -/
def Denotes (index : ShapeIndex) (id name : String) : Prop :=
  id = name ∨ ∃ space, index.namespaceName = some space ∧ id = absoluteId space name

/-- What holds of the index of a document, so that its shapes are found by their names. -/
structure FindsByName (text : List Char) (index : ShapeIndex) : Prop extends index.IsOf text where
  distinct : index.shapes.keys.Nodup
  bare : ∀ space, index.namespaceName = some space → '#' ∉ space.toList

/-- The index of a document finds its shapes by their names. -/
theorem findsByName_ofIdl {text : List Char} {idl : Idl} (document : idl.tree.IsDocument text)
    (holds : index.IsOf text) (indexed : ShapeIndex.ofIdl idl = .ok index) :
    index.FindsByName text := by
  obtain ⟨statements, shapes⟩ := exists_hasShapes indexed
  exact ⟨holds, (keepsLastShape_ofIdl indexed shapes).distinct,
    fun _ named => numberSign_not_mem_namespaceName document.isPart indexed named⟩

/-- The shapes of a category are found by the ids that denote their names. -/
theorem find?_eq_some_iff {text : List Char} (holds : index.FindsByName text)
    {category : ShapeCategory} {id : String} {record : ShapeRecord} :
    index.find? category id = some record ↔
      record ∈ index.records category ∧ index.Denotes id record.name := by
  constructor
  · intro found
    refine ⟨mem_records_of_find? found, ?_⟩
    obtain ⟨name, named, stored⟩ := Option.bind_eq_some_iff.mp found
    have same : name = record.name :=
      (Prod.mk.inj (holds.key _ (Table.mem_entries_of_get? stored))).2
    subst same
    unfold localName? at named
    split at named
    · exact .inl (Option.some.inj named)
    · rename_i space rest split
      obtain ⟨spaced, written⟩ := Option.ite_none_right_eq_some.mp named
      refine .inr ⟨_, spaced, String.toList_inj.mp ?_⟩
      rw [toList_absoluteId, (Text.splitAt?_eq_some_iff.mp split).1, ← Option.some.inj written]
      simp
  · rintro ⟨member, denotes⟩
    obtain ⟨name, inside⟩ := mem_records_iff.mp member
    have key := holds.key _ inside
    have stored : index.shapes.get? (category, record.name) = some record := by
      rw [Table.get?_eq_some_iff holds.distinct, ← (Prod.mk.inj key).2]
      exact inside
    have named : index.localName? id = some record.name := by
      rcases denotes with rfl | ⟨space, spaced, rfl⟩
      · exact localName?_of_not_mem (holds.numberSign_not_mem member)
      · exact localName?_absoluteId spaced (holds.bare space spaced)
    unfold find?
    rw [named, Option.bind_some, stored]

/-- The element is an id, with or without quotes, that denotes this operation of the
document. -/
def NamesOperation (index : ShapeIndex) (element : NodeValue) (operation : ShapeRecord) : Prop :=
  ∃ id, NodeValue.IsId element id ∧ operation ∈ index.records .operation ∧
    index.Denotes id operation.name

/-- These are the operations of the document that the service lists, in the order of its list
and as often as they are listed. -/
def ListsOperations (index : ShapeIndex) (service : ShapeRecord)
    (operations : List ShapeRecord) : Prop :=
  (∀ elements, service.HasListing elements → Chosen index.NamesOperation elements operations) ∧
    ((∀ elements, ¬ service.HasListing elements) → operations = [])

/-- What a service is said to list are operations of the index. -/
theorem ListsOperations.mem_records {operations : List ShapeRecord}
    (lists : index.ListsOperations service operations) :
    ∀ operation ∈ operations, operation ∈ index.records .operation := by
  intro operation member
  by_cases some : ∃ elements, service.HasListing elements
  · obtain ⟨elements, has⟩ := some
    obtain ⟨_, -, _, -, isIn, -⟩ := (lists.1 elements has).exists_mem member
    exact isIn
  · push Not at some
    rw [lists.2 some] at member
    cases member

/-- A service lists its operations in one way. -/
theorem ListsOperations.unique {text : List Char} (holds : index.FindsByName text)
    {operations others : List ShapeRecord} (left : index.ListsOperations service operations)
    (right : index.ListsOperations service others) : operations = others := by
  by_cases some : ∃ elements, service.HasListing elements
  · obtain ⟨elements, has⟩ := some
    refine (left.1 elements has).unique ?_ (right.1 elements has)
    rintro element operation other ⟨id, isId, named⟩ ⟨id', isId', named'⟩
    obtain rfl := isId.unique isId'
    have found := (find?_eq_some_iff holds).mpr named
    have found' := (find?_eq_some_iff holds).mpr named'
    exact Option.some.inj (found.symm.trans found')
  · push Not at some
    rw [left.2 some, right.2 some]

/-! ## Services -/

/-- The operations of a list are those that are found for its elements, in their order, and what
is found for none is reported. -/
theorem resolveListings_chosen {name : String} {body : NodeObject} {operations : List ShapeRecord}
    (success : index.resolveListings name body = .ok (operations, reports)) :
    (∀ elements, NodeObject.HasListing body elements →
      Chosen (fun element operation =>
        ∃ id, NodeValue.IsId element id ∧ index.find? .operation id = some operation)
        elements operations ∧
      ∀ element ∈ elements, ∀ id, NodeValue.IsId element id →
        index.find? .operation id = none →
        ⟨.operationNotDefined id name, element.span⟩ ∈ reports) ∧
    ((∀ elements, ¬ NodeObject.HasListing body elements) → operations = []) := by
  obtain ⟨found, read, rest⟩ := read_bind_eq_ok_iff.mp success
  cases found with
  | none =>
    cases rest
    refine ⟨?_, fun _ => rfl⟩
    rintro elements ⟨listing, _, _, last, -⟩
    cases (NodeObject.hasLast_iff read listing).mp last
  | some listing =>
    obtain ⟨content, readContent, rest⟩ := read_bind_eq_ok_iff.mp rest
    cases form : NodeValueKind.form content with
    | object | number | keyword | string =>
      rw [form] at rest
      cases rest
      refine ⟨?_, fun _ => rfl⟩
      rintro elements ⟨listing', content', array, last, readContent', form', -⟩
      cases (NodeObject.hasLast_iff read listing').mp last
      cases readContent.symm.trans readContent'
      cases form.symm.trans form'
    | array array =>
      rw [form] at rest
      obtain ⟨founds, own, _, each, final, rfl⟩ := bind_eq_ok_iff.mp rest
      cases final
      have has : NodeObject.HasListing body (NodeArray.values array) :=
        ⟨listing, content, array, (NodeObject.hasLast_iff read listing).mpr rfl, readContent,
          form, rfl⟩
      refine ⟨?_, fun none => absurd has (none _)⟩
      intro elements has'
      cases has.unique has'
      constructor
      · refine .of_forall₂ (Reporting.forall₂_of_mapM_eq_ok ?_ each)
        exact fun element _ found own listed => (resolveListing_spec listed).1
      · intro element present id isId absent
        obtain ⟨found, reported, listed, -, inside⟩ := (Reporting.mapM_eq_ok each).1 element present
        obtain ⟨value, readValue, listed⟩ := read_bind_eq_ok_iff.mp listed
        rw [(NodeValue.isId_iff readValue id).mp isId] at listed
        simp only [absent] at listed
        cases listed
        exact List.mem_append_left _ (inside _ (List.mem_singleton_self _))

/-- The interface of a service is that of the operations that it lists, and elements of its list
that name none are reported. -/
theorem exists_listsOperations {text : List Char} (holds : index.FindsByName text)
    {interface : Interface} {header : ServiceHeader}
    (success : index.resolveService lines options service = .ok ((interface, header), reports)) :
    ∃ operations version earlier later, index.ListsOperations service operations ∧
      (∀ elements, service.HasListing elements → ∀ element ∈ elements, ∀ id,
        NodeValue.IsId element id → index.find? .operation id = none →
        ⟨.operationNotDefined id service.name, element.span⟩ ∈ earlier) ∧
      index.interfaceOf lines options service operations version =
        .ok ((interface, header), later) ∧ reports = earlier ++ later := by
  cases form : service.entity? with
  | none =>
    rw [resolveService_of_none form] at success
    have none : ∀ elements, ¬ service.HasListing elements := by
      rintro elements ⟨_, _, found, -⟩
      cases form.symm.trans found
    exact ⟨[], _, [], reports, ⟨fun elements has => absurd has (none elements), fun _ => rfl⟩,
      fun elements has => absurd has (none elements), success, rfl⟩
  | some shape =>
    rw [resolveService_of_some form] at success
    obtain ⟨⟨operations, version⟩, earlier, later, listed, rest, rfl⟩ :=
      bind_eq_ok_iff.mp success
    obtain ⟨body, readBody, listed⟩ := read_bind_eq_ok_iff.mp listed
    obtain ⟨operations', own, _, listings, behind, rfl⟩ := bind_eq_ok_iff.mp listed
    obtain ⟨version', -, final⟩ := read_bind_eq_ok_iff.mp behind
    cases final
    obtain ⟨chosen, unlisted⟩ := resolveListings_chosen listings
    simp only [← ShapeRecord.hasListing_iff form readBody] at chosen unlisted
    refine ⟨operations, version, _, later, ⟨?_, unlisted⟩, ?_, rest, rfl⟩
    · intro elements has
      refine (chosen elements has).1.congr fun element operation => exists_congr fun id => ?_
      rw [find?_eq_some_iff holds]
    · intro elements has element present id isId absent
      exact List.mem_append_left _ ((chosen elements has).2 element present id isId absent)

/-! ## Places -/

section Places

variable {text : List Char} {root : Tree} {elements others : List NodeValue}
  {element other : NodeValue} {id : String}

/-- A listed element is part of the document, and inside the declaration of its service. -/
theorem occurs_of_hasListing (origin : index.IsFrom root)
    (member : service ∈ index.records .service) (has : service.HasListing elements)
    (present : element ∈ elements) :
    element.tree.Occurs service.decl.tree ∧ element.tree.Occurs root := by
  obtain ⟨array, within, rfl⟩ := has.exists_array
  have occurs := View.occurs_of_mem_many within present
  exact ⟨occurs, occurs.trans (origin.shapes _ service member)⟩

variable (document : root.IsDocument text) (origin : index.IsFrom root)
  (member : service ∈ index.records .service) (has : service.HasListing elements)
  (present : element ∈ elements)

include document origin member has present

/-- A listed element covers where it starts, and so does its service. -/
theorem covers_of_hasListing :
    element.span.Covers element.span.start ∧ service.span.Covers element.span.start := by
  obtain ⟨within, occurs⟩ := occurs_of_hasListing origin member has present
  have here : element.span.Covers element.span.start :=
    View.covers_start document occurs (by decide)
  have sits := document.sits.of_occurs (origin.shapes _ service member)
  exact ⟨here, sits.covers within here⟩

/-- A place in the lists of a document's services is in one list, and there in one element. -/
theorem eq_of_span_eq_of_hasListing (holds : index.IsOf text) {service' : ShapeRecord}
    (member' : service' ∈ index.records .service) (has' : service'.HasListing others)
    (present' : other ∈ others) (same : other.span = element.span) :
    service' = service ∧ other = element := by
  obtain ⟨here, inService⟩ := covers_of_hasListing document origin member has present
  obtain ⟨-, inService'⟩ := covers_of_hasListing document origin member' has' present'
  have inBoth : other.span.Covers element.span.start := by
    rw [same]
    exact here
  rw [same] at inService'
  have one := eq_of_covers_of_mem_records document holds origin member' member inService' inService
  subst one
  refine ⟨rfl, ?_⟩
  cases has.unique has'
  obtain ⟨array, within, rfl⟩ := has.exists_array
  have sits := document.sits.of_occurs (within.trans (origin.shapes _ _ member))
  exact View.ext (sits.eq_of_covers (View.mem_children_of_mem_many present')
    (View.mem_children_of_mem_many present) inBoth here)

/-- What is found on a listed element is that it names no operation. -/
theorem Finds.eq_of_hasListing (holds : index.IsOf text) {report : Report}
    (found : index.Finds root report) (same : report.span = element.span) :
    ∃ id, NodeValue.IsId element id ∧ index.find? .operation id = none ∧
      report = ⟨.operationNotDefined id service.name, element.span⟩ := by
  by_cases undefined : report.finding.code = .operationNotDefined
  · cases found with
    | operationNotDefined member' has' present' isId absent =>
      obtain ⟨rfl, rfl⟩ :=
        eq_of_span_eq_of_hasListing document origin member has present holds member' has' present'
          same
      exact ⟨_, isId, absent, rfl⟩
    | _ => cases undefined
  · -- The other findings are on nodes that are apart from services.
    have checked : ∀ code ∈ Code.all, code ≠ .operationNotDefined →
        Kind.Bars Rule.insideEntities [.entityShape] code.hosts ∧
        Kind.Bars Rule.outsideStatements code.hosts [.entityShape] ∧
        Kind.entityShape ∉ code.hosts := by
      decide
    obtain ⟨bars, bars', other⟩ := checked report.finding.code (Code.mem_all _) undefined
    obtain ⟨host, part, hostOccurs, hosts, within, place⟩ := found.hosts origin
    obtain ⟨here, inService⟩ := covers_of_hasListing document origin member has present
    have inHost : host.span.Covers element.span.start := by
      refine (document.sits.of_occurs hostOccurs).covers within ?_
      rw [place, same]
      exact here
    obtain ⟨shape, _, form, -⟩ := has
    have kind : service.decl.tree.kind = .entityShape := by
      have tree := ShapeDecl.tree_form service.decl
      rw [ShapeRecord.entity?_eq_some_iff.mp form] at tree
      rw [← tree]
      exact List.mem_singleton.mp shape.accepted
    have one := bars.eq_of_covers bars' document (origin.shapes _ service member) hostOccurs
      (List.mem_singleton.mpr kind) hosts inService inHost
    rw [← one, kind] at hosts
    exact absurd hosts other

end Places

/-! ## Interfaces -/

/-- The methods of the interface are named by the operations that the service lists. -/
def ListsMethods (index : ShapeIndex) (service : ShapeRecord) (interface : Interface) : Prop :=
  ∃ operations, index.ListsOperations service operations ∧
    interface.methods.map Method.name = operations.map ShapeRecord.name

/-- The methods of an interface are named like its operations, in their order. -/
theorem methodNames_of_interfaceOf {operations : List ShapeRecord} {version : Option String}
    {interface : Interface} {header : ServiceHeader}
    (success : index.interfaceOf lines options service operations version =
      .ok ((interface, header), reports)) :
    interface.methods.map Method.name = operations.map ShapeRecord.name := by
  obtain ⟨⟨own, each⟩, -⟩ := interfaceOf_spec success
  have named : List.Forall₂ (· = ·) (operations.map ShapeRecord.name)
      (interface.methods.map Method.name) := by
    rw [List.forall₂_map_left_iff, List.forall₂_map_right_iff]
    refine Reporting.forall₂_of_mapM_eq_ok ?_ each
    exact fun operation _ method own made => (resolveMethod_spec made).1.symm
  rw [List.forall₂_eq_eq_eq] at named
  exact named.symm

/-- The interfaces of a model are those of the services, with methods for the operations that
these list. -/
theorem listsMethods_of_resolveModel {text : List Char} (holds : index.FindsByName text)
    {path : String} {model : ServiceModel}
    (success : index.resolveModel lines path options = .ok (model, reports)) :
    List.Forall₂ index.ListsMethods (index.records .service) model.interfaces := by
  obtain ⟨services, _, _, _, _, _, served, -, -, -, interfaces, -, -⟩ := resolveModel_spec success
  rw [interfaces, List.forall₂_map_right_iff]
  refine Reporting.forall₂_of_mapM_eq_ok ?_ served
  rintro service - ⟨interface, header⟩ own success
  obtain ⟨operations, version, _, _, lists, -, made, -⟩ :=
    exists_listsOperations holds success
  exact ⟨operations, lists, methodNames_of_interfaceOf made⟩

/-- The diagnostics where an element of a list stands: one if it is an id that denotes no
operation, and none otherwise. -/
structure ReportsElement (index : ShapeIndex) (path : String) (lines : LineIndex)
    (service : ShapeRecord) (element : NodeValue) (diagnostics : List Diagnostic) : Prop where
  undefined : ∀ id, NodeValue.IsId element id →
    (∀ operation ∈ index.records .operation, ¬ index.Denotes id operation.name) →
    diagnostics.filter (fun d => d.location = lines.locate element.span) =
      [.ofReport path lines ⟨.operationNotDefined id service.name, element.span⟩]
  quiet : (∀ id, NodeValue.IsId element id →
      ∃ operation ∈ index.records .operation, index.Denotes id operation.name) →
    diagnostics.filter (fun d => d.location = lines.locate element.span) = []

end ShapeIndex

/-- The interfaces of a model have methods for the operations that their services list, in the
order of the lists and as often as these list them. An id in a list that denotes no operation is
reported once, where it stands, and nothing else in a list is. -/
theorem resolve_listings {text : String} {events : List Event}
    (accepted : documentEvents text = .ok events) (path : String) (options : Options) :
    ∃ tree idl index resolution,
      documentTree text = .ok (.ok tree) ∧ Idl.ofTree tree = .ok idl ∧
      ShapeIndex.ofIdl idl = .ok index ∧ resolve text path options = .ok resolution ∧
      List.Forall₂ index.ListsMethods (index.records .service) resolution.model.interfaces ∧
      ∀ service ∈ index.records .service, ∀ elements, service.HasListing elements →
        ∀ element ∈ elements,
          index.ReportsElement path (.ofText text) service element resolution.diagnostics := by
  obtain ⟨tree, idl, index, model, reports, made, root, indexed, document, holds, origin, modelled,
    found, resolved⟩ := exists_findings_of_accepted accepted path options
  have byName := ShapeIndex.findsByName_ofIdl document holds indexed
  obtain ⟨services, fromServices, _, _, _, _, served, -, -, -, -, -, all⟩ :=
    ShapeIndex.resolveModel_spec modelled
  have absent {id : String} : index.find? .operation id = none ↔
      ∀ operation ∈ index.records .operation, ¬ index.Denotes id operation.name := by
    simp only [Option.eq_none_iff_forall_ne_some, ne_eq,
      ShapeIndex.find?_eq_some_iff byName, not_and]
  refine ⟨tree, idl, index, _, made, root, indexed, resolved,
    ShapeIndex.listsMethods_of_resolveModel byName modelled, ?_⟩
  intro service member elements has element present
  constructor
  · intro id isId unknown
    have unfound := absent.mpr unknown
    obtain ⟨⟨interface, header⟩, own, success, -, inside⟩ :=
      (Reporting.mapM_eq_ok served).1 service member
    obtain ⟨_, _, earlier, later, -, reported, -, rfl⟩ :=
      ShapeIndex.exists_listsOperations byName success
    have isIn := inside _ (List.mem_append_left later
      (reported elements has element present id isId unfound))
    rw [all]
    refine Log.filter_entries_eq_singleton (List.mem_append_left _ isIn) (decide_eq_true rfl) ?_
    intro other member' here
    have same := LineIndex.span_eq_of_locate_eq (of_decide_eq_true here)
    rw [← all] at member'
    obtain ⟨id', isId', -, rfl⟩ :=
      (found other member').eq_of_hasListing document origin member has present holds same
    rw [isId.unique isId']
  · intro known
    refine Log.filter_entries_eq_nil fun other member' => decide_eq_false fun here => ?_
    have same := LineIndex.span_eq_of_locate_eq here
    obtain ⟨id', isId', unfound, -⟩ :=
      (found other member').eq_of_hasListing document origin member has present holds same
    obtain ⟨operation, isIn, denotes⟩ := known id' isId'
    exact absent.mp unfound operation isIn denotes

/-- A list with ids in both spellings, one of them twice, and with elements that are nothing of
the document, behind another list that does not count. -/
def mixedListing : String :=
  "namespace a\nservice V \x7b\n  operations: [X]\n  operations: [O, \"a#P\", Q, O, 1, b#O]\n" ++
    "\x7d\noperation O \x7b\x7d\noperation P \x7b\x7d"

/-- The interface has a method for each element that denotes an operation; `Q` and `b#O` are
reported. -/
theorem resolve_listings_mixedListing :
    ∃ events, documentEvents mixedListing = .ok events ∧
      ∃ tree idl index resolution,
        documentTree mixedListing = .ok (.ok tree) ∧ Idl.ofTree tree = .ok idl ∧
        ShapeIndex.ofIdl idl = .ok index ∧ resolve mixedListing "a" {} = .ok resolution ∧
        List.Forall₂ index.ListsMethods (index.records .service) resolution.model.interfaces ∧
        (∀ service ∈ index.records .service, ∀ elements, service.HasListing elements →
          ∀ element ∈ elements, index.ReportsElement "a" (.ofText mixedListing) service element
            resolution.diagnostics) ∧
        resolution.model.interfaces.map (fun interface => interface.methods.map Method.name) =
          [["O", "P", "O"]] ∧
        resolution.diagnostics.map (fun d => (d.code, d.location.startCol)) =
          [(.operationNotDefined, 26), (.operationNotDefined, 35)] := by
  have computed : (resolve mixedListing "a" {}).toOption.any (fun resolution =>
      resolution.model.interfaces.map (fun interface => interface.methods.map Method.name) ==
        [["O", "P", "O"]] &&
      resolution.diagnostics.map (fun d => (d.code, d.location.startCol)) ==
        [(.operationNotDefined, 26), (.operationNotDefined, 35)]) = true := by
    decide +kernel
  obtain ⟨known, found, computed⟩ := (Option.any_eq_true _ _).mp computed
  obtain ⟨methods, reports⟩ := Bool.and_eq_true_iff.mp computed
  have success := Outcome.eq_ok_of_toOption found
  have some : known.model.interfaces ≠ [] := by
    intro none
    simp [none] at methods
  obtain ⟨events, accepted⟩ := exists_events_of_model success (.inr some)
  obtain ⟨tree, idl, index, resolution, made, root, indexed, resolved, interfaces, each⟩ :=
    resolve_listings accepted "a" {}
  cases success.symm.trans resolved
  exact ⟨events, accepted, tree, idl, index, known, made, root, indexed, resolved, interfaces, each,
    eq_of_beq methods, eq_of_beq reports⟩

end ServiceIdl
