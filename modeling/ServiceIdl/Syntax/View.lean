import ServiceIdl.Syntax.Category
import ServiceIdl.Syntax.Tree

/-!
# Typed views of nodes

A `View c` is a tree that is known to be of the category `c`. Its parts are views
again: `optional` and `required` give the first child of a category, `many` all
of them. A required child that is absent is a `Defect` of the tree. No document
has one; trees put together by hand may.

The parts of a view are smaller than the view, so functions can recurse through
them (`View.sizeOf_of_mem_many` and its kin).
-/

namespace ServiceIdl

/-- What a tree lacks that every document has. -/
inductive Defect where
  | missingChild (parent : Kind) (child : Category) (span : Span)
  | malformedLiteral (kind : Kind) (text : String) (span : Span)
deriving DecidableEq, Repr

/-- A span as messages print it. -/
def Span.text (span : Span) : String := toString span.start ++ ".." ++ toString span.stop

/-- The message of a defect. -/
def Defect.message : Defect → String
  | .missingChild parent child span =>
    parent.name ++ " node at " ++ span.text ++ " is missing required " ++ child.name ++ " child"
  | .malformedLiteral kind text span =>
    kind.name ++ " literal `" ++ text ++ "` at " ++ span.text ++ " is malformed"

/-- A tree of a category. -/
structure View (c : Category) where
  tree : Tree
  accepted : tree.kind ∈ c.kinds

namespace View

variable {c d : Category}

/-- A tree as a view, if it is of the category. -/
def of? (c : Category) (tree : Tree) : Option (View c) :=
  if h : tree.kind ∈ c.kinds then some ⟨tree, h⟩ else none

/-- What the node covers of the document. -/
def span (v : View c) : Span := v.tree.span

/-- The text that the node covers. -/
def text (v : View c) : String := v.tree.text

/-- The children of a category, in the order of the document. -/
def many (v : View c) (d : Category) : List (View d) := v.tree.children.filterMap (of? d)

/-- The first child of a category. -/
def optional (v : View c) (d : Category) : Option (View d) := v.tree.children.findSome? (of? d)

/-- The first child of a category, which every document has. -/
def required (v : View c) (d : Category) : Except Defect (View d) :=
  match v.optional d with
  | some child => .ok child
  | none => .error (.missingChild v.tree.kind d v.span)

/-! ## Laws -/

@[ext] theorem ext {v w : View c} (same : v.tree = w.tree) : v = w := by
  cases v
  cases w
  simpa using same

/-- A view of a tree is the tree with its category. -/
theorem of?_eq_some_iff {tree : Tree} {v : View c} : of? c tree = some v ↔ v.tree = tree := by
  constructor
  · intro found
    unfold of? at found
    split at found
    · cases found
      rfl
    · contradiction
  · rintro rfl
    exact dif_pos v.accepted

/-- A tree has no view exactly if its kind is not one of the category. -/
theorem of?_eq_none_iff {tree : Tree} : of? c tree = none ↔ tree.kind ∉ c.kinds := by
  simp [of?]

theorem mem_children_of_mem_many {v : View c} {child : View d} (member : child ∈ v.many d) :
    child.tree ∈ v.tree.children := by
  obtain ⟨tree, present, same⟩ := List.mem_filterMap.mp member
  rw [of?_eq_some_iff.mp same]
  exact present

theorem mem_children_of_optional {v : View c} {child : View d} (found : v.optional d = some child) :
    child.tree ∈ v.tree.children := by
  obtain ⟨tree, member, same⟩ := List.exists_of_findSome?_eq_some found
  rw [of?_eq_some_iff.mp same]
  exact member

/-- A required child is there exactly if there is a first one. -/
theorem required_eq_ok_iff {v : View c} {child : View d} :
    v.required d = .ok child ↔ v.optional d = some child := by
  unfold required
  cases v.optional d with
  | none => simp
  | some first => simp

theorem mem_children_of_required {v : View c} {child : View d} (read : v.required d = .ok child) :
    child.tree ∈ v.tree.children :=
  mem_children_of_optional (required_eq_ok_iff.mp read)

/-- A child is smaller than the node. -/
theorem sizeOf_of_mem_children {tree child : Tree} (h : child ∈ tree.children) :
    sizeOf child < sizeOf tree := by
  cases tree with
  | token => simp [Tree.children] at h
  | node kind span children =>
    have := List.sizeOf_lt_of_mem h
    simp only [Tree.node.sizeOf_spec, Tree.children] at *
    omega

theorem sizeOf_of_mem_many {v : View c} {child : View d} (h : child ∈ v.many d) :
    sizeOf child.tree < sizeOf v.tree :=
  sizeOf_of_mem_children (mem_children_of_mem_many h)

theorem sizeOf_of_required {v : View c} {child : View d} (h : v.required d = .ok child) :
    sizeOf child.tree < sizeOf v.tree :=
  sizeOf_of_mem_children (mem_children_of_required h)

end View

end ServiceIdl
