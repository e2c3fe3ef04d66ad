import ServiceIdl.Proofs.Shape.Last

/-!
# Indexes in another order

Two indexes may hold the same shapes under the same names in different orders
(`ShapeIndex.Reorders`). They agree wherever shapes are looked up, and list the shapes of a
category in orders of their own.
-/

namespace ServiceIdl.ShapeIndex

/-- The indexes have the same shapes under the same names, each name once in a category, but
maybe in different orders, and everything else in common. -/
structure Reorders (index other : ShapeIndex) : Prop where
  namespaceName : index.namespaceName = other.namespaceName
  applies : index.applies = other.applies
  traits : ∀ name, index.traits.get? name = other.traits.get? name
  distinct : index.shapes.keys.Nodup
  shapes : index.shapes.entries.Perm other.shapes.entries

namespace Reorders

variable {index other : ShapeIndex}

theorem symm (same : index.Reorders other) : other.Reorders index where
  namespaceName := same.namespaceName.symm
  applies := same.applies.symm
  traits name := (same.traits name).symm
  distinct := (same.shapes.map Prod.fst).nodup_iff.mp same.distinct
  shapes := same.shapes.symm

theorem localName?_eq (same : index.Reorders other) : index.localName? = other.localName? := by
  funext id
  unfold localName?
  rw [same.namespaceName]

/-- What is found does not depend on the order, as no key is entered twice. -/
theorem find?_eq (same : index.Reorders other) : index.find? = other.find? := by
  funext category id
  have found : index.shapes.get? = other.shapes.get? :=
    funext (Table.get?_eq_of_perm same.distinct same.shapes)
  unfold find?
  rw [same.localName?_eq, found]

theorem lookup?_eq (same : index.Reorders other) : index.lookup? = other.lookup? := by
  funext id
  unfold lookup?
  rw [same.find?_eq]

theorem traitsOf_eq (same : index.Reorders other) : index.traitsOf = other.traitsOf := by
  funext id
  have found : index.traits.get? = other.traits.get? := funext same.traits
  unfold traitsOf
  rw [same.localName?_eq, found]

/-- The records of a category are the same up to their order. -/
theorem records (same : index.Reorders other) (category : ShapeCategory) :
    (index.records category).Perm (other.records category) :=
  (same.shapes.filter _).map _

end Reorders

/-- The index with its shapes in the opposite order. -/
def reversed (index : ShapeIndex) : ShapeIndex :=
  { index with shapes := ⟨index.shapes.entries.reverse⟩ }

/-- Reversing the entries is such a change of order. -/
theorem reorders_reversed {index : ShapeIndex} (distinct : index.shapes.keys.Nodup) :
    index.Reorders index.reversed where
  namespaceName := rfl
  applies := rfl
  traits _ := rfl
  distinct := distinct
  shapes := (List.reverse_perm _).symm

end ServiceIdl.ShapeIndex
