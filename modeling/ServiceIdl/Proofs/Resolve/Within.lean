import ServiceIdl.Proofs.Model.Placed
import ServiceIdl.Proofs.Resolve.Ensured
import ServiceIdl.Proofs.Resolve.Success
import ServiceIdl.Proofs.Shape.Within

/-!
# Types and members within their document

What the functions that resolve types, members and declarations give, if they give
anything: traits and reports that lie within the document, and parts of the model that are
located at places of it (`LineIndex.Locates`). `Reporting.Ensures` says both at once.
-/

namespace ServiceIdl

/-- The report is on a place of the text. -/
def Report.IsWithin (text : List Char) (report : Report) : Prop := report.span.IsOf text

/-- What goes on with a part of the text goes on within the text. -/
theorem Reporting.Ensures.required {β : Type} {text : List Char} {about : Report → Prop}
    {holdsNext : β → Prop} {c d : Category} {v : View c} {next : View d → Reporting β}
    (within : v.tree.IsWithin text)
    (rest : ∀ child : View d, child.tree.IsWithin text → Ensures about (next child) holdsNext) :
    Ensures about (liftM (v.required d) >>= next) holdsNext :=
  read (View.ensures_required within) rest

/-! ## Constraints -/

namespace Trait

variable {text : List Char} {t : Trait}

/-- A bound of a trait of the text has 64 signed bits. -/
theorem IsWithin.isSigned64_of_bound? (within : t.IsWithin text) {key : String} {n : Int}
    (read : t.bound? key = some n) : Decimal.IsSigned64 n := by
  obtain ⟨number, found, integer⟩ := Option.bind_eq_some_iff.mp read
  obtain ⟨value, field, number⟩ := Option.bind_eq_some_iff.mp found
  refine (within.fits_of_field? field).of_number? ?_
  rw [number]
  exact integer

theorem IsWithin.isSigned64_of_length? (within : t.IsWithin text) {key : String} {n : Nat}
    (read : t.length? key = some n) : Decimal.IsSigned64 n := by
  obtain ⟨m, kept, rfl⟩ := Option.map_eq_some_iff.mp read
  obtain ⟨bound, checked⟩ := Option.filter_eq_some_iff.mp kept
  have positive : 0 ≤ m := of_decide_eq_true checked
  rw [Int.toNat_of_nonneg positive]
  exact within.isSigned64_of_bound? bound

end Trait

namespace Constraint

variable {text : List Char}

/-- Nothing is asked of a constraint without a bound. -/
theorem fits_of_unbounded {c : Constraint} (unbounded : c.bound? = none) : c.datum.Fits := by
  refine fits_datum fun d bounded => ?_
  rw [unbounded] at bounded
  cases bounded

/-- A constraint that is made from something read fits if its bound does. -/
theorem fits_of_read {α : Type} {read : Option α} {make : α → Constraint} {bound : α → Datum}
    (bounded : ∀ a, (make a).bound? = some (bound a)) (fits : ∀ a, read = some a → (bound a).Fits) :
    ∀ c ∈ (read.map make).toList, c.datum.Fits := by
  intro c member
  obtain ⟨a, given, rfl⟩ := Option.map_eq_some_iff.mp (Option.mem_toList.mp member)
  refine fits_datum fun d same => ?_
  cases (bounded a).symm.trans same
  exact fits a given

theorem fits_of_ofTrait? {t : Trait} {cs : List Constraint} (within : t.IsWithin text)
    (translated : ofTrait? t = some cs) : ∀ c ∈ cs, c.datum.Fits := by
  have length (key : String) (n : Nat) (read : t.length? key = some n) : (Datum.nat n).Fits :=
    .int (within.isSigned64_of_length? read)
  have bound (key : String) (n : Int) (read : t.bound? key = some n) : (Datum.int n).Fits :=
    .int (within.isSigned64_of_bound? read)
  unfold ofTrait? at translated
  split at translated
  · cases translated
    exact List.forall_mem_singleton.mpr (fits_of_unbounded rfl)
  · cases translated
    exact List.forall_mem_append.mpr
      ⟨fits_of_read (fun _ => rfl) (length "min"), fits_of_read (fun _ => rfl) (length "max")⟩
  · cases translated
    exact fits_of_read (fun _ => rfl) fun _ _ => .text
  · cases translated
    exact List.forall_mem_append.mpr
      ⟨fits_of_read (fun _ => rfl) (bound "min"), fits_of_read (fun _ => rfl) (bound "max")⟩
  · cases translated
    exact List.forall_mem_singleton.mpr (fits_of_unbounded rfl)
  · cases translated

theorem fits_of_ofTraits {traits : List Trait} (within : ∀ t ∈ traits, t.IsWithin text) :
    ∀ c ∈ ofTraits traits, c.datum.Fits := by
  intro c member
  obtain ⟨t, present, inside⟩ := List.mem_flatMap.mp (List.mem_eraseDups.mp member)
  cases translated : ofTrait? t with
  | none =>
    rw [translated] at inside
    cases inside
  | some cs =>
    rw [translated] at inside
    exact fits_of_ofTrait? (within t present) translated c inside

theorem within_of_reports {traits : List Trait} (within : ∀ t ∈ traits, t.IsWithin text) :
    ∀ report ∈ reports traits, report.span.IsOf text := by
  intro report member
  obtain ⟨t, present, found⟩ := List.mem_filterMap.mp member
  unfold report? at found
  split at found
  · cases found
    exact (within t present).span
  · cases found

end Constraint

/-! ## Types -/

/-- The traits that come with a type lie within a text. -/
def ResolvedType.IsWithin (text : List Char) (type : ResolvedType) : Prop :=
  ∀ t ∈ type.traits, t.IsWithin text

/-- The traits that a member takes over lie within a text. -/
def MemberTarget.IsWithin (text : List Char) (target : MemberTarget) : Prop :=
  ∀ t ∈ target.inherited, t.IsWithin text

/-- Every span of the text is located at a place of this kind. -/
def LineIndex.Locates (text : List Char) (place : Location → Prop) (lines : LineIndex) : Prop :=
  ∀ span : Span, span.IsOf text → place (lines.locate span)

variable {text : List Char} {place : Location → Prop} {index : ShapeIndex} {lines : LineIndex}

/-- Adding traits of the text keeps the type within it. -/
theorem ResolvedType.IsWithin.withTraits {type : ResolvedType} (within : type.IsWithin text)
    {traits : List Trait} (more : ∀ t ∈ traits, t.IsWithin text) :
    (type.withTraits traits).IsWithin text :=
  List.forall_mem_append.mpr ⟨within, more⟩

theorem ensures_scalarOfKeyword (keyword : String) {span : Span} (within : span.IsOf text) :
    Reporting.Ensures (Report.IsWithin text) (scalarOfKeyword keyword span) fun _ => True := by
  unfold scalarOfKeyword
  split
  · exact .pure trivial
  · exact .reporting trivial within

namespace ShapeIndex

theorem ensures_resolveAlias (holds : index.IsWithin text) {shape : ShapeRecord}
    (within : shape.decl.tree.IsWithin text) :
    Reporting.Ensures (Report.IsWithin text) (index.resolveAlias shape)
      fun type => type.IsWithin text := by
  unfold resolveAlias
  cases shape.simple? with
  | none => exact .pure (List.forall_mem_nil _)
  | some decl =>
    have here : shape.span.IsOf text := View.span_isWithin within
    refine .skip fun keyword => (ensures_scalarOfKeyword _ here).bind fun scalar _ => ?_
    exact .pure (holds.traitsOf shape.name)

theorem ensures_resolveTypeRef (holds : index.IsWithin text) (id : String) {span : Span}
    (within : span.IsOf text) :
    Reporting.Ensures (Report.IsWithin text) (index.resolveTypeRef id span)
      fun type => type.IsWithin text := by
  have spec := index.typeRef_spec id
  unfold resolveTypeRef
  cases ref : index.typeRef id with
  | keyword word =>
    exact (ensures_scalarOfKeyword word within).bind fun _ _ => .pure (List.forall_mem_nil _)
  | wrapper scalar => exact .pure (List.forall_mem_nil _)
  | «alias» shape =>
    rw [ref] at spec
    exact ensures_resolveAlias holds (holds.found spec)
  | expectedPrimitive => exact .reporting (List.forall_mem_nil _) within
  | named => exact .pure (List.forall_mem_nil _)

/-! ## Members -/

/-- The explicit target of a member of the text lies within it. -/
theorem ensures_explicitTarget? (name : String) {member : ShapeMember}
    (within : member.tree.IsWithin text) :
    Outcome.Ensures (ShapeMember.explicitTarget? name member) fun found =>
      ∀ target, found = some target → target.IsWithin text := by
  refine .read fun decl _ => ?_
  cases MemberDecl.form decl with
  | elided => exact .pure (by simp)
  | explicit decl =>
    refine .read fun own _ => ?_
    split
    · refine .read fun target _ => ?_
      refine (View.ensures_required within).bind fun statements statementsWithin => ?_
      refine (Trait.ensures_ofStatements statementsWithin).bind fun traits each => .pure ?_
      intro found same
      cases same
      exact each
    · exact .pure (by simp)

theorem ensures_mixinMember? (holds : index.IsWithin text) (name : String) (mixin : ShapeId) :
    Outcome.Ensures (index.mixinMember? name mixin) fun found =>
      ∀ target, found = some target → target.IsWithin text := by
  unfold mixinMember?
  cases form : (index.lookup? mixin.text).bind ShapeRecord.aggregate? with
  | none => exact .ok (by simp)
  | some shape =>
    obtain ⟨record, found, aggregate⟩ := Option.bind_eq_some_iff.mp form
    have within := ShapeDecl.isWithin_of_form (holds.lookedUp found)
      (ShapeRecord.aggregate?_eq_some_iff.mp aggregate)
    refine (View.ensures_required within).bind fun members membersWithin => ?_
    refine .findSomeM? fun member present => ?_
    exact ensures_explicitTarget? name (View.isWithin_of_mem_many membersWithin present)

theorem ensures_memberTarget? (holds : index.IsWithin text) (mixins : Option Mixins)
    (decl : MemberDecl) :
    Outcome.Ensures (index.memberTarget? mixins decl) fun found =>
      ∀ target, found = some target → target.IsWithin text := by
  unfold memberTarget?
  cases MemberDecl.form decl with
  | explicit member =>
    refine .read fun target _ => .pure ?_
    intro found same
    cases same
    exact List.forall_mem_nil _
  | elided member =>
    refine .read fun name _ => ?_
    cases mixins with
    | none => exact .pure (by simp)
    | some mixins => exact .findSomeM? fun mixin _ => ensures_mixinMember? holds _ mixin

theorem ensures_resolveElement (holds : index.IsWithin text) (shape : AggregateShape)
    {element : ShapeMember} (within : element.tree.IsWithin text) :
    Reporting.Ensures (Report.IsWithin text) (index.resolveElement shape element) fun type =>
      type.IsWithin text := by
  have here := View.span_isWithin within
  refine .skip fun decl => .required within fun statements statementsWithin => ?_
  refine .read (Trait.ensures_ofStatements statementsWithin) fun own each => ?_
  refine .read (ensures_memberTarget? holds _ decl) fun target taken => ?_
  cases target with
  | none =>
    refine .skip fun name => (Reporting.Ensures.report here).bind fun _ _ => ?_
    have unknown : ResolvedType.unknown.IsWithin text := List.forall_mem_nil _
    exact .pure (unknown.withTraits each)
  | some target =>
    refine (ensures_resolveTypeRef holds target.id here).bind fun type met => ?_
    exact .pure ((met.withTraits (taken target rfl)).withTraits each)

theorem ensures_resolveList (holds : index.IsWithin text) {list : ShapeRecord}
    (within : list.decl.tree.IsWithin text) :
    Reporting.Ensures (Report.IsWithin text) (index.resolveList list)
      fun type => type.IsWithin text := by
  have own := holds.traitsOf list.name
  have here : list.span.IsOf text := View.span_isWithin within
  unfold resolveList
  cases form : list.aggregate? with
  | none => exact .pure own
  | some shape =>
    have shapeWithin := ShapeDecl.isWithin_of_form within
      (ShapeRecord.aggregate?_eq_some_iff.mp form)
    refine .required shapeWithin fun members membersWithin => ?_
    cases elements : ShapeMembers.members members with
    | nil => exact (Reporting.Ensures.report here).bind fun _ _ => .pure own
    | cons element rest =>
      have first : element ∈ ShapeMembers.members members := by
        rw [elements]
        exact List.mem_cons_self
      have elementWithin := View.isWithin_of_mem_many membersWithin first
      refine (ensures_resolveElement holds shape elementWithin).bind fun type met => ?_
      exact .pure (List.forall_mem_append.mpr ⟨own, met⟩)

theorem ensures_resolveTarget (holds : index.IsWithin text) (id : String) {span : Span}
    (within : span.IsOf text) :
    Reporting.Ensures (Report.IsWithin text) (index.resolveTarget id span)
      fun type => type.IsWithin text := by
  unfold resolveTarget
  cases ref : index.listRef? id with
  | none => exact ensures_resolveTypeRef holds id within
  | some list => exact ensures_resolveList holds (holds.found (find?_of_listRef? ref))

theorem ensures_resolveMemberType (holds : index.IsWithin text) (mixins : Option Mixins)
    (decl : MemberDecl) (name : String) {span : Span} (within : span.IsOf text) :
    Reporting.Ensures (Report.IsWithin text) (index.resolveMemberType mixins decl name span)
      fun type => type.IsWithin text := by
  refine .read (ensures_memberTarget? holds mixins decl) fun target taken => ?_
  cases target with
  | none => exact .reporting (List.forall_mem_nil _) within
  | some target =>
    refine (ensures_resolveTarget holds target.id within).bind fun type met => ?_
    exact .pure (met.withTraits (taken target rfl))

/-- A member is placed, and reported on within the text. -/
theorem ensures_resolveMember (holds : index.IsWithin text) (located : lines.Locates text place)
    (mixins : Option Mixins) {member : ShapeMember} (within : member.tree.IsWithin text) :
    Reporting.Ensures (Report.IsWithin text) (index.resolveMember lines mixins member)
      fun m => m.IsPlaced place := by
  have here := View.span_isWithin within
  refine .skip fun decl => .skip fun name => .required within fun statements inside => ?_
  refine .read (Trait.ensures_ofStatements inside) fun own each => ?_
  refine (ensures_resolveMemberType holds mixins decl _ here).bind fun type met => ?_
  have traits : ∀ t ∈ type.traits ++ own, t.IsWithin text :=
    List.forall_mem_append.mpr ⟨met, each⟩
  refine .noting ?_ (Constraint.within_of_reports traits)
  exact ⟨Constraint.fits_of_ofTraits traits, located _ here⟩

theorem ensures_resolveMembers (holds : index.IsWithin text) (located : lines.Locates text place)
    {record : ShapeRecord} (within : record.decl.tree.IsWithin text) :
    Reporting.Ensures (Report.IsWithin text) (index.resolveMembers lines record) fun members =>
      ∀ m ∈ members, m.IsPlaced place := by
  unfold resolveMembers
  cases form : record.aggregate? with
  | none => exact .pure (List.forall_mem_nil _)
  | some shape =>
    have shapeWithin := ShapeDecl.isWithin_of_form within
      (ShapeRecord.aggregate?_eq_some_iff.mp form)
    refine .required shapeWithin fun members membersWithin => .mapM ?_
    intro member present
    have memberWithin := View.isWithin_of_mem_many membersWithin present
    exact ensures_resolveMember holds located _ memberWithin

/-! ## Structures and enumerations -/

theorem place_ofTraits? (located : lines.Locates text place) {traits : List Trait}
    (within : ∀ t ∈ traits, t.IsWithin text) :
    ∀ d, Deprecation.ofTraits? lines traits = some d → place d.location := by
  intro d found
  obtain ⟨t, first, rfl⟩ := Option.map_eq_some_iff.mp found
  exact located _ (within t (Trait.mem_of_find? first)).span

theorem ensures_resolveStructure (holds : index.IsWithin text)
    (located : lines.Locates text place) {record : ShapeRecord}
    (within : record.decl.tree.IsWithin text) :
    Reporting.Ensures (Report.IsWithin text) (index.resolveStructure lines record)
      fun t => t.IsPlaced place := by
  have here : record.span.IsOf text := View.span_isWithin within
  have deprecated := place_ofTraits? located (holds.traitsOf record.name)
  refine (ensures_resolveMembers holds located within).bind fun properties each => .pure ?_
  exact ⟨deprecated, each, located _ here⟩

end ShapeIndex

theorem EnumLiteral.fits_of_ofValue? {value : Value} (fits : value.Fits) :
    ∀ l, EnumLiteral.ofValue? value = some l → l.datum.Fits := by
  intro l read
  cases fits with
  | string =>
    cases read
    exact .text
  | @number n known =>
    cases n with
    | integer =>
      cases read
      exact .int known
    | float => cases read
  | shapeId | bool | null | array | object => cases read

namespace EnumValue

theorem ensures_literalOf? (member : EnumShapeMember) :
    Outcome.Ensures (EnumValue.literalOf? member) fun value =>
      ∀ l, value = some l → l.datum.Fits := by
  unfold EnumValue.literalOf?
  cases EnumShapeMember.value member with
  | none => exact .ok (by simp)
  | some assignment =>
    refine .read fun node _ => (Value.ensures_ofNode node).bind fun value fits => ?_
    exact .pure (EnumLiteral.fits_of_ofValue? fits)

theorem ensures_ofMember (located : lines.Locates text place) {member : EnumShapeMember}
    (within : member.tree.IsWithin text) :
    Outcome.Ensures (EnumValue.ofMember lines member) fun v => v.IsPlaced place := by
  have here := View.span_isWithin within
  refine (View.ensures_required within).bind fun statements inside => ?_
  refine (Trait.ensures_ofStatements inside).bind fun traits each => ?_
  refine (ensures_literalOf? member).bind fun value literal => .read fun name _ => .pure ?_
  have deprecated := ShapeIndex.place_ofTraits? located each
  exact ⟨literal, deprecated, located _ here⟩

end EnumValue

namespace ShapeIndex

theorem ensures_resolveEnum (holds : index.IsWithin text) (located : lines.Locates text place)
    {record : ShapeRecord} (within : record.decl.tree.IsWithin text) :
    Outcome.Ensures (index.resolveEnum lines record) fun e => e.IsPlaced place := by
  have here : record.span.IsOf text := View.span_isWithin within
  have deprecated := place_ofTraits? located (holds.traitsOf record.name)
  unfold resolveEnum
  cases form : record.enum? with
  | none =>
    exact .pure ⟨deprecated, List.forall_mem_nil _, located _ here⟩
  | some shape =>
    have shapeWithin := ShapeDecl.isWithin_of_form within (ShapeRecord.enum?_eq_some_iff.mp form)
    have read : Outcome.Ensures (resolveEnumShape lines shape) fun enum =>
        ∀ v ∈ enum.2, v.IsPlaced place := by
      refine .read fun word _ => (View.ensures_required shapeWithin).bind fun members inside => ?_
      refine (Outcome.Ensures.mapM fun member present => ?_).bind fun values each => .pure each
      exact EnumValue.ensures_ofMember located (View.isWithin_of_mem_many inside present)
    refine read.bind fun enum each => ?_
    exact .pure ⟨deprecated, each, located _ here⟩

end ShapeIndex

end ServiceIdl
