import ServiceIdl.Proofs.Model.Log
import ServiceIdl.Proofs.Resolve.Apart
import ServiceIdl.Proofs.Resolve.Members

/-!
# Elided members

A member that is elided is resolved as if it was written out: with the target and the traits of
the first explicit member of its name in the first of the mixins that has one, and behind these
with its own traits (`ShapeIndex.IsInlined`). Without such a member it has no type, and is
reported once (`resolve_elisions`).
-/

namespace ServiceIdl

open Reporting (bind_eq_ok_iff read_bind_eq_ok_iff)

/-! ## Traits in different places -/

/-- The traits are the same but for their places. -/
structure Trait.Alike (t other : Trait) : Prop where
  id : t.id = other.id
  body : t.body = other.body
  verbatim : t.verbatim = other.verbatim

/-- Traits that are alike stand for the same constraints. -/
theorem Constraint.ofTrait_eq {t other : Trait} (alike : t.Alike other) :
    Constraint.ofTrait t = Constraint.ofTrait other := by
  obtain ⟨id, body, verbatim, span⟩ := t
  obtain ⟨id', body', verbatim', span'⟩ := other
  obtain ⟨rfl, rfl, rfl⟩ := alike
  rfl

theorem Constraint.flatMap_ofTrait_eq {traits others : List Trait}
    (alike : List.Forall₂ Trait.Alike traits others) :
    traits.flatMap Constraint.ofTrait = others.flatMap Constraint.ofTrait := by
  induction alike with
  | nil => rfl
  | cons head _ ih => rw [List.flatMap_cons, List.flatMap_cons, ih, Constraint.ofTrait_eq head]

namespace ShapeIndex

variable {text : List Char} {root : Tree} {index : ShapeIndex} {lines : LineIndex}
  {shape : AggregateShape} {member : ShapeMember} {name id : String} {target : MemberTarget}
  {own : List Trait}

/-! ## What is asked of an elided member -/

/-- The member is resolved as an explicit one would be that has this name, this target and these
traits. -/
structure IsInlined (index : ShapeIndex) (lines : LineIndex) (mixins : Option Mixins)
    (member : ShapeMember) (m : Member) (name id : String) (traits : List Trait) : Prop where
  /-- In the place of the member, the explicit one comes to the same and makes the same
  reports. -/
  inPlace : ∃ (inlined : ShapeMember) (reports : List Report),
    inlined.span = member.span ∧ ShapeMember.Declares name inlined id ∧
    ShapeMember.HasTraits inlined traits ∧
    index.resolveMember lines mixins member = .ok (m, reports) ∧
    ∀ others, index.resolveMember lines others inlined = .ok (m, reports)
  /-- In any other place, it comes to the same but for the place. -/
  anywhere : ∀ inlined others, ShapeMember.Declares name inlined id →
    ShapeMember.HasTraits inlined others → List.Forall₂ Trait.Alike traits others →
    ∀ mixins, ∃ reports, index.resolveMember lines mixins inlined =
      .ok ({ m with location := lines.locate inlined.span }, reports)

/-- What a model makes of a member that is written `$name`. -/
structure ResolvesElision (index : ShapeIndex) (path : String) (lines : LineIndex)
    (shape : AggregateShape) (member : ShapeMember) (name : String)
    (diagnostics : List Diagnostic) (m : Member) : Prop where
  provided : ∀ mixin ∈ AggregateShape.mixinIds shape, ∀ id, index.Provides name mixin id →
    ∃ target own, First (index.ProvidesWith name) (AggregateShape.mixinIds shape) target ∧
      ShapeMember.HasTraits member own ∧
      index.IsInlined lines (AggregateShape.mixins shape) member m name target.id
        (target.inherited ++ own)
  unprovided : (∀ mixin ∈ AggregateShape.mixinIds shape, ∀ id, ¬ index.Provides name mixin id) →
    (∃ own, ShapeMember.HasTraits member own ∧
      m = { name, isArray := false, isPrimitive := false, typeName := none,
            rules := Constraint.ofTraits own, location := lines.locate member.span }) ∧
    diagnostics.filter (fun d =>
        d.code = .unexpectedElision ∧ d.location = lines.locate member.span) =
      [.ofReport path lines ⟨.unexpectedElision name, member.span⟩]

/-- All elided members of the structures are resolved so. -/
def ResolvesElisions (index : ShapeIndex) (path : String) (lines : LineIndex)
    (resolution : Resolution) : Prop :=
  index.EachMember
    (fun shape member m => ∀ name, ShapeMember.Elides member name →
      index.ResolvesElision path lines shape member name resolution.diagnostics m)
    resolution.model

/-! ## Types in different places -/

/-- The scalar of a keyword does not depend on where it stands; only the reports do. -/
theorem exists_scalarOfKeyword {word : String} {span : Span} {scalar : Scalar}
    {reports : List Report} (success : scalarOfKeyword word span = .ok (scalar, reports))
    (span' : Span) : ∃ reports', scalarOfKeyword word span' = .ok (scalar, reports') := by
  unfold scalarOfKeyword at success ⊢
  cases known : Scalar.ofKeyword? word with
  | some scalar =>
    rw [known] at success
    exact ⟨reports, success⟩
  | none =>
    rw [known] at success
    cases success
    exact ⟨_, rfl⟩

theorem exists_resolveTypeRef {span : Span} {type : ResolvedType} {reports : List Report}
    (success : index.resolveTypeRef id span = .ok (type, reports)) (span' : Span) :
    ∃ reports', index.resolveTypeRef id span' = .ok (type, reports') := by
  unfold resolveTypeRef at success ⊢
  cases ref : index.typeRef id with
  | keyword word =>
    rw [ref] at success
    obtain ⟨scalar, _, _, known, final, -⟩ := bind_eq_ok_iff.mp success
    cases final
    obtain ⟨reports', known'⟩ := exists_scalarOfKeyword known span'
    exact ⟨_, bind_eq_ok_iff.mpr ⟨scalar, reports', [], known', rfl, rfl⟩⟩
  | wrapper | named | «alias» =>
    rw [ref] at success
    exact ⟨reports, success⟩
  | expectedPrimitive =>
    rw [ref] at success
    cases success
    exact ⟨_, rfl⟩

/-- The type of an id is the same wherever it is asked for. -/
theorem exists_resolveTarget {span : Span} {type : ResolvedType} {reports : List Report}
    (success : index.resolveTarget id span = .ok (type, reports)) (span' : Span) :
    ∃ reports', index.resolveTarget id span' = .ok (type, reports') := by
  unfold resolveTarget at success ⊢
  cases found : index.listRef? id with
  | some list =>
    rw [found] at success
    exact ⟨reports, success⟩
  | none =>
    rw [found] at success
    exact exists_resolveTypeRef success span'

/-- What comes of a member depends on its place in the place only. -/
theorem exists_resolveAs {traits others : List Trait} {span : Span} {m : Member}
    {reports : List Report}
    (success : index.resolveAs lines name id traits span = .ok (m, reports))
    (alike : List.Forall₂ Trait.Alike traits others) (span' : Span) :
    ∃ reports', index.resolveAs lines name id others span' =
      .ok ({ m with location := lines.locate span' }, reports') := by
  obtain ⟨type, earlier, later, typed, final, -⟩ := bind_eq_ok_iff.mp success
  cases final
  obtain ⟨reports', typed'⟩ := exists_resolveTarget typed span'
  rw [Constraint.ofTraits_append_congr type.traits (Constraint.flatMap_ofTrait_eq alike)]
  exact ⟨_, bind_eq_ok_iff.mpr ⟨type, reports', _, typed', rfl, rfl⟩⟩

/-! ## Elided members -/

/-- A mixin that has an explicit member of a name has it with its traits. -/
theorem provides_iff_exists (holds : index.IsOf text) {mixin : ShapeId} :
    index.Provides name mixin id ↔ ∃ inherited, index.ProvidesWith name mixin ⟨id, inherited⟩ := by
  obtain ⟨found, read, -⟩ := succeeds_mixinMember? holds name mixin
  simp only [provides_iff read, providesWith_iff read]
  constructor
  · intro some
    obtain ⟨target, rfl, rfl⟩ := Option.map_eq_some_iff.mp some
    exact ⟨target.inherited, rfl⟩
  · rintro ⟨inherited, rfl⟩
    rfl

/-- With a target from a mixin, an elided member is resolved as the explicit one would be. -/
theorem isInlined_of_first (holds : index.IsOf text)
    (elides : ShapeMember.Elides member name) (has : ShapeMember.HasTraits member own)
    (first : First (index.ProvidesWith name) (AggregateShape.mixinIds shape) target) {m : Member}
    {reports : List Report}
    (success : index.resolveMember lines (AggregateShape.mixins shape) member =
      .ok (m, reports)) :
    index.IsInlined lines (AggregateShape.mixins shape) member m name target.id
      (target.inherited ++ own) := by
  have takes : index.Takes shape member target := .inr ⟨name, elides, first⟩
  have resolved : index.resolveMember lines (AggregateShape.mixins shape) member =
      index.resolveAs lines name target.id (target.inherited ++ own) member.span := by
    obtain ⟨decl, identifier, readDecl, readName, taken⟩ := takes.exists_decl holds
    obtain ⟨decl', identifier', readDecl', readName', rfl⟩ := elides.exists_decl
    cases readDecl.symm.trans readDecl'
    cases readName.symm.trans readName'
    exact resolveMember_of_memberTarget? readDecl readName has taken
  constructor
  · obtain ⟨inlined, place, declares', has'⟩ := takes.exists_written has name target.id
    refine ⟨inlined, reports, place, declares', has', success, fun others => ?_⟩
    rw [resolveMember_of_declares declares' has' others, place, ← resolved]
    exact success
  · intro inlined others declares' has' alike mixins
    rw [resolveMember_of_declares declares' has' mixins]
    rw [resolved] at success
    exact exists_resolveAs success alike inlined.span

/-- Without a target from a mixin, an elided member has no type, and is reported. -/
theorem resolveMember_of_unprovided (holds : index.IsOf text) (part : member.tree.IsPart text)
    (elides : ShapeMember.Elides member name) (has : ShapeMember.HasTraits member own)
    (nothing : ∀ mixin ∈ AggregateShape.mixinIds shape, ∀ id, ¬ index.Provides name mixin id) :
    index.resolveMember lines (AggregateShape.mixins shape) member =
      .ok ({ name, isArray := false, isPrimitive := false, typeName := none,
             rules := Constraint.ofTraits own, location := lines.locate member.span },
        ⟨.unexpectedElision name, member.span⟩ :: Constraint.reports own) := by
  obtain ⟨decl, identifier, readDecl, readName, rfl⟩ := elides.exists_decl
  have partDecl := View.isPart_of_required part readDecl
  obtain ⟨found, read, -⟩ := succeeds_memberTarget? holds (AggregateShape.mixins shape) partDecl
  -- A target would be its own, and it has none, or come from a mixin, and none provides it.
  have absent : found = none := by
    refine Option.eq_none_iff_forall_ne_some.mpr fun target taken => ?_
    rcases (takes_iff partDecl readDecl read target).mpr taken with
      ⟨_, declares, -⟩ | ⟨_, elides', first⟩
    · exact declares.not_elides elides
    · cases elides.unique elides'
      obtain ⟨mixin, isIn, provides⟩ := first.exists_mem
      exact nothing mixin isIn _ ((provides_iff_exists holds).mpr ⟨_, provides⟩)
  rw [absent] at read
  obtain ⟨statements, readPart, readTraits⟩ := has
  unfold resolveMember resolveMemberType
  simp only [Reporting.read_bind_of_ok readDecl, Reporting.read_bind_of_ok readName,
    Reporting.read_bind_of_ok readPart, Reporting.read_bind_of_ok readTraits,
    Reporting.read_bind_of_ok read]
  rfl

/-- A member that elides its target resolves like one that writes it, and without a target it is
reported once. -/
theorem resolvesElision_of_resolveMember {root : Tree} (document : root.IsDocument text)
    (holds : index.IsOf text) (origin : index.IsFrom root) {path : String} {reports : List Report}
    (found : ∀ report ∈ reports, index.Finds root report)
    (has : index.HasMember .structureShape shape member) {m : Member} {made : List Report}
    (success : index.resolveMember lines (AggregateShape.mixins shape) member = .ok (m, made))
    (inside : ∀ report ∈ made, report ∈ reports) (elides : ShapeMember.Elides member name) :
    index.ResolvesElision path lines shape member name
      (Log.empty.insertReports path lines reports).entries m := by
  have part := has.isPart holds
  obtain ⟨own, hasOwn⟩ := ShapeMember.exists_hasTraits part
  constructor
  · intro mixin isIn id provides
    obtain ⟨inherited, provides⟩ := (provides_iff_exists holds).mp provides
    obtain ⟨target, first⟩ := First.exists_of_mem isIn provides
    exact ⟨target, own, first, hasOwn, isInlined_of_first holds elides hasOwn first success⟩
  · intro nothing
    rw [resolveMember_of_unprovided holds part elides hasOwn nothing] at success
    cases success
    refine ⟨⟨own, hasOwn, rfl⟩, ?_⟩
    refine Log.filter_entries_eq_singleton (inside _ List.mem_cons_self)
      (decide_eq_true ⟨rfl, rfl⟩) ?_
    -- Another report of this kind in this place is on this member, and says its name.
    intro other reported here
    obtain ⟨code, location⟩ := of_decide_eq_true here
    have same := LineIndex.span_eq_of_locate_eq location
    cases found other reported with
    | unexpectedElision occurs readDecl readName =>
      obtain rfl := ShapeMember.eq_of_span_eq document occurs (has.occurs origin) same
      obtain ⟨decl, identifier, readDecl', readName', rfl⟩ := elides.exists_decl
      cases readDecl.symm.trans readDecl'
      cases readName.symm.trans readName'
      rfl
    | _ => cases code

end ShapeIndex

/-! ## Documents -/

/-- The elided members of a document's structures are resolved as if they were written out. Those
that no mixin provides have no type, and are reported once. -/
theorem resolve_elisions {text : String} {events : List Event}
    (accepted : documentEvents text = .ok events) (path : String) (options : Options) :
    ∃ tree idl index resolution,
      documentTree text = .ok (.ok tree) ∧ Idl.ofTree tree = .ok idl ∧
      ShapeIndex.ofIdl idl = .ok index ∧ resolve text path options = .ok resolution ∧
      index.ResolvesElisions path (.ofText text) resolution := by
  obtain ⟨tree, idl, index, model, reports, made, root, indexed, document, holds, origin, modelled,
    found, resolved⟩ := exists_findings_of_accepted accepted path options
  refine ⟨tree, idl, index, _, made, root, indexed, resolved,
    ShapeIndex.eachMember_of_resolveModel holds ?_ modelled⟩
  intro shape member m own has success inside name elides
  exact ShapeIndex.resolvesElision_of_resolveMember document holds origin found has success inside
    elides

/-- A structure that takes over one member from the second of its mixins, and finds no other. -/
def elidedMembers : String :=
  "namespace a\nstructure M \x7b @pattern(\"x\") x: L \x7d\nlist L \x7b member: String \x7d\n" ++
    "structure S with [N, M] \x7b @required $x $y \x7d"

/-- Of the two elided members of such a document one is resolved through a mixin and its list, and
the other is reported. -/
theorem resolve_elisions_elidedMembers :
    ∃ events, documentEvents elidedMembers = .ok events ∧
      ∃ tree idl index resolution,
        documentTree elidedMembers = .ok (.ok tree) ∧ Idl.ofTree tree = .ok idl ∧
        ShapeIndex.ofIdl idl = .ok index ∧ resolve elidedMembers "a" {} = .ok resolution ∧
        index.ResolvesElisions "a" (.ofText elidedMembers) resolution ∧
        resolution.model.types.map (fun type => type.properties.map fun m =>
            (m.name, m.isArray, m.typeName, m.rules)) =
          [[("x", true, some (.scalar .string), [.pattern "x"])],
            [("x", true, some (.scalar .string), [.pattern "x", .required]),
              ("y", false, none, [])]] ∧
        resolution.diagnostics.map Diagnostic.code = [.unexpectedElision] := by
  have computed : (resolve elidedMembers "a" {}).toOption.any (fun resolution =>
      resolution.model.types.map (fun type => type.properties.map fun m =>
          (m.name, m.isArray, m.typeName, m.rules)) ==
        [[("x", true, some (.scalar .string), [.pattern "x"])],
          [("x", true, some (.scalar .string), [.pattern "x", .required]),
            ("y", false, none, [])]] &&
      resolution.diagnostics.map Diagnostic.code == [.unexpectedElision]) = true := by
    decide +kernel
  obtain ⟨known, found, computed⟩ := (Option.any_eq_true _ _).mp computed
  have success := Outcome.eq_ok_of_toOption found
  obtain ⟨properties, reports⟩ := Bool.and_eq_true_iff.mp computed
  have some : known.model.types ≠ [] := by
    intro none
    simp [none] at properties
  obtain ⟨events, accepted⟩ := exists_events_of_types success some
  obtain ⟨tree, idl, index, resolution, made, root, indexed, resolved, elisions⟩ :=
    resolve_elisions accepted "a" {}
  cases success.symm.trans resolved
  exact ⟨events, accepted, tree, idl, index, known, made, root, indexed, resolved, elisions,
    eq_of_beq properties, eq_of_beq reports⟩

end ServiceIdl
