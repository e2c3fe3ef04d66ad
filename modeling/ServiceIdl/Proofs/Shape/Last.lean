import Mathlib.Data.List.Nodup
import ServiceIdl.Proofs.Shape.Named

/-!
# The last shape of a name

In each category an index has one shape for a name: that of the last statement that declares
the name in the category (`ShapeIndex.keepsLastShape_ofIdl`). So the shapes of a category have
different names (`ShapeIndex.KeepsLastShape.nodup_names`), while those of two categories may
share one.
-/

namespace ServiceIdl

/-! ## What a statement declares -/

/-- The statement declares the shape under a category and a name. -/
def ShapeStatement.DeclaresUnder (key : ShapeCategory × String) (statement : ShapeStatement)
    (record : ShapeRecord) : Prop :=
  (record.category, record.name) = key ∧
    ∃ traits, ShapeStatement.DeclaresShape statement record traits

/-- The last of the statements that declares a shape under the category and the name
declares this one. -/
def HasLastShape (statements : List ShapeStatement) (key : ShapeCategory × String)
    (record : ShapeRecord) : Prop :=
  First (ShapeStatement.DeclaresUnder key) statements.reverse record

/-- A statement declares one shape. -/
theorem ShapeStatement.DeclaresShape.unique {statement : ShapeStatement}
    {record other : ShapeRecord} {traits others : List Trait}
    (left : ShapeStatement.DeclaresShape statement record traits)
    (right : ShapeStatement.DeclaresShape statement other others) : record = other := by
  rcases record with ⟨category, name, decl⟩
  rcases other with ⟨category', name', decl'⟩
  have named : name = name' := (left.traits.unique right.traits).1
  subst named
  cases left.shape.symm.trans right.shape
  cases left.category.symm.trans right.category
  rfl

namespace ShapeIndex

variable {index next : ShapeIndex} {statement : ShapeStatement} {seen : List ShapeStatement}

/-- Every shape statement of a document declares a shape. -/
theorem exists_declaresShape {idl : Idl} {statements : List ShapeStatement}
    (indexed : ShapeIndex.ofIdl idl = .ok index) (shapes : idl.HasShapes statements) :
    ∀ statement ∈ statements, ∃ record traits,
      ShapeStatement.DeclaresShape statement record traits := by
  obtain ⟨namespaceName, filled, folded, -⟩ := exists_foldlM_of_ofIdl indexed shapes
  let EachDeclares (seen : List ShapeStatement) (_ : ShapeIndex) : Prop :=
    ∀ statement ∈ seen, ∃ record traits, ShapeStatement.DeclaresShape statement record traits
  have start : EachDeclares [] (.empty namespaceName) := List.forall_mem_nil _
  refine Outcome.foldlM_induction EachDeclares ?_ start folded
  intro seen index statement next each declared
  obtain ⟨record, traits, declares, -⟩ := declares_of_declare declared
  exact List.forall_mem_append.mpr
    ⟨each, List.forall_mem_singleton.mpr ⟨record, traits, declares⟩⟩

/-! ## What the index keeps of the shapes -/

/-- The index of the statements `seen` has for each category and name the shape that was
declared last. -/
structure KeepsLastShape (seen : List ShapeStatement) (index : ShapeIndex) : Prop where
  distinct : index.shapes.keys.Nodup
  shapes : ∀ key record, HasLastShape seen key record ↔ index.shapes.get? key = some record

theorem keepsLastShape_empty (namespaceName : Option String) :
    KeepsLastShape [] (ShapeIndex.empty namespaceName) := by
  refine ⟨List.nodup_nil, ?_⟩
  intro key record
  constructor
  · intro last
    cases last
  · intro same
    cases same

/-- A declaration replaces the one of the same key and leaves the others. -/
theorem KeepsLastShape.declare (keeps : KeepsLastShape seen index)
    (declared : index.declare statement = .ok next) :
    KeepsLastShape (seen ++ [statement]) next := by
  obtain ⟨own, traits, declares, rfl⟩ := declares_of_declare declared
  refine ⟨Table.nodup_keys_alter keeps.distinct _ _, ?_⟩
  intro key record
  unfold HasLastShape
  rw [List.reverse_append, List.reverse_singleton, List.singleton_append]
  by_cases same : (own.category, own.name) = key
  · have here : ShapeStatement.DeclaresUnder key statement own := ⟨same, traits, declares⟩
    rw [First.cons_iff_of_holds here, ← same, Table.get?_insert_self, Option.some.injEq]
    constructor
    · rintro ⟨-, others, declares'⟩
      exact declares.unique declares'
    · rintro rfl
      exact ⟨rfl, traits, declares⟩
  · have nothing : ∀ other, ¬ ShapeStatement.DeclaresUnder key statement other := by
      rintro other ⟨same', others, declares'⟩
      rw [declares'.unique declares] at same'
      exact same same'
    rw [First.cons_iff_of_forall_not nothing, Table.get?_insert_of_ne (Ne.symm same)]
    exact keeps.shapes key record

/-- The index of a document has the last shape of each category and name. -/
theorem keepsLastShape_ofIdl {idl : Idl} {statements : List ShapeStatement}
    (indexed : ShapeIndex.ofIdl idl = .ok index) (shapes : idl.HasShapes statements) :
    KeepsLastShape statements index := by
  obtain ⟨namespaceName, filled, folded, same⟩ := exists_foldlM_of_ofIdl indexed shapes
  have keeps := Outcome.foldlM_induction KeepsLastShape
    (fun seen index statement next keeps declared => keeps.declare declared)
    (keepsLastShape_empty namespaceName) folded
  rw [same]
  exact ⟨keeps.distinct, keeps.shapes⟩

/-- A shape of an index is the last of its category and name. -/
theorem KeepsLastShape.hasLastShape {text : List Char} (keeps : KeepsLastShape seen index)
    (holds : index.IsOf text) {category : ShapeCategory} {record : ShapeRecord}
    (member : record ∈ index.records category) :
    HasLastShape seen (record.category, record.name) record := by
  obtain ⟨name, inside⟩ := mem_records_iff.mp member
  have key : (category, name) = (record.category, record.name) := holds.key _ inside
  rw [key] at inside
  exact (keeps.shapes _ _).mpr ((Table.get?_eq_some_iff keeps.distinct).mpr inside)

/-- The shapes of a category have different names. -/
theorem KeepsLastShape.nodup_names {text : List Char} (keeps : KeepsLastShape seen index)
    (holds : index.IsOf text) (category : ShapeCategory) :
    ((index.records category).map ShapeRecord.name).Nodup := by
  have keys : (index.shapes.entries.filter fun entry => entry.1.1 = category).map Prod.fst =
      ((index.records category).map ShapeRecord.name).map fun name => (category, name) := by
    unfold records
    rw [List.map_map, List.map_map]
    refine List.map_congr_left fun entry member => ?_
    obtain ⟨present, filed⟩ := List.mem_filter.mp member
    obtain ⟨-, named⟩ := Prod.mk.inj (holds.key entry present)
    exact Prod.ext (of_decide_eq_true filed) named
  have distinct : (((index.records category).map ShapeRecord.name).map
      fun name => (category, name)).Nodup := by
    rw [← keys]
    exact keeps.distinct.sublist (List.filter_sublist.map Prod.fst)
  exact List.Nodup.of_map _ distinct

/-- The names of a category's shapes are those that statements declare in it. -/
theorem KeepsLastShape.mem_names_iff {text : List Char} (keeps : KeepsLastShape seen index)
    (holds : index.IsOf text) {category : ShapeCategory} {name : String} :
    name ∈ (index.records category).map ShapeRecord.name ↔
      ∃ statement ∈ seen, ∃ record,
        ShapeStatement.DeclaresUnder (category, name) statement record := by
  constructor
  · intro member
    obtain ⟨record, present, rfl⟩ := List.mem_map.mp member
    have last := keeps.hasLastShape holds present
    rw [(holds.isDeclaredIn present).2] at last
    obtain ⟨earlier, statement, later, rfl, declares, -⟩ := First.exists_append_of_reverse last
    exact ⟨statement, by simp, record, declares⟩
  · rintro ⟨statement, isIn, record, declares⟩
    obtain ⟨last, first⟩ := First.exists_of_mem (List.mem_reverse.mpr isIn) declares
    have found := (keeps.shapes _ _).mp first
    have inside := Table.mem_entries_of_get? found
    obtain ⟨-, named⟩ := Prod.mk.inj (holds.key _ inside)
    exact List.mem_map.mpr ⟨last, mem_records_iff.mpr ⟨name, inside⟩, named.symm⟩

end ShapeIndex

end ServiceIdl
