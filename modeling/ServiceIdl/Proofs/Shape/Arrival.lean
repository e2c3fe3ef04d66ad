import ServiceIdl.Proofs.Lists
import ServiceIdl.Proofs.Shape.Last

/-!
# The order in which names arrive

An index has the keys of its shapes in the order in which statements first declare them
(`ShapeIndex.keepsArrival_ofIdl`), each once. So the shapes of a category come in the order of
the first declarations in that category, whatever is declared in between.
-/

namespace ServiceIdl

/-! ## Keys -/

/-- The statement declares a shape under the key. -/
def ShapeStatement.HasKey (statement : ShapeStatement) (key : ShapeCategory × String) : Prop :=
  ∃ record, ShapeStatement.DeclaresUnder key statement record

namespace ShapeIndex

variable {index next : ShapeIndex} {statement : ShapeStatement} {seen : List ShapeStatement}

/-- The index of the statements `seen` has their keys in the order in which they arrive. -/
def KeepsArrival (seen : List ShapeStatement) (index : ShapeIndex) : Prop :=
  ∃ keys, List.Forall₂ ShapeStatement.HasKey seen keys ∧ index.shapes.keys = keys.eraseDups

theorem keepsArrival_empty (namespaceName : Option String) :
    KeepsArrival [] (ShapeIndex.empty namespaceName) :=
  ⟨[], .nil, rfl⟩

/-- A statement puts its key behind the others, unless it has arrived before. -/
theorem KeepsArrival.declare (keeps : KeepsArrival seen index)
    (declared : index.declare statement = .ok next) :
    KeepsArrival (seen ++ [statement]) next := by
  obtain ⟨record, traits, declares, rfl⟩ := declares_of_declare declared
  obtain ⟨keys, each, kept⟩ := keeps
  have last : ShapeStatement.HasKey statement (record.category, record.name) :=
    ⟨record, rfl, traits, declares⟩
  refine ⟨keys ++ [(record.category, record.name)], List.rel_append each (.cons last .nil), ?_⟩
  change (index.shapes.insert (record.category, record.name) record).keys = _
  rw [Table.insert, Table.keys_alter, eraseDups_concat, kept]
  simp only [List.mem_eraseDups]

/-- The index of a document has the keys of its statements in the order in which they
arrive. -/
theorem keepsArrival_ofIdl {idl : Idl} {statements : List ShapeStatement}
    (indexed : ShapeIndex.ofIdl idl = .ok index) (shapes : idl.HasShapes statements) :
    KeepsArrival statements index := by
  obtain ⟨namespaceName, filled, folded, same⟩ := exists_foldlM_of_ofIdl indexed shapes
  have keeps := Outcome.foldlM_induction KeepsArrival
    (fun seen index statement next keeps declared => keeps.declare declared)
    (keepsArrival_empty namespaceName) folded
  rw [same]
  exact keeps

/-- The name under a key of the category. -/
def nameIn (category : ShapeCategory) (key : ShapeCategory × String) : Option String :=
  if key.1 = category then some key.2 else none

/-- The name is kept for the keys of the category. -/
theorem nameIn_eq_some_iff {category : ShapeCategory} {key : ShapeCategory × String}
    {name : String} : nameIn category key = some name ↔ key = (category, name) := by
  rcases key with ⟨own, given⟩
  simp [nameIn]

/-- The names of the shapes of a category are those under its keys. -/
theorem names_eq_filterMap {text : List Char} (holds : index.IsOf text)
    (category : ShapeCategory) :
    (index.records category).map ShapeRecord.name =
      index.shapes.keys.filterMap (nameIn category) := by
  unfold records Table.keys
  rw [List.map_map, List.filterMap_map, ← List.filterMap_eq_map, List.filterMap_filter]
  refine List.filterMap_congr fun entry member => ?_
  simp only [Function.comp_apply, nameIn, holds.key entry member]
  by_cases filed : entry.2.category = category
  · simp [filed]
  · simp [filed]

/-- The names of the shapes of a category come in the order of their first declarations. -/
theorem names_eq_eraseDups {text : List Char} (holds : index.IsOf text)
    {keys : List (ShapeCategory × String)} (kept : index.shapes.keys = keys.eraseDups)
    (category : ShapeCategory) :
    (index.records category).map ShapeRecord.name =
      (keys.filterMap (nameIn category)).eraseDups := by
  rw [names_eq_filterMap holds, kept, eraseDups_filterMap]
  intro key other name left right
  exact (nameIn_eq_some_iff.mp left).trans (nameIn_eq_some_iff.mp right).symm

end ShapeIndex

end ServiceIdl
