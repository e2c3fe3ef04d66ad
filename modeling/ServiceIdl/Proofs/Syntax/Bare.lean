import ServiceIdl.Proofs.Syntax.Parts

/-!
# Bare trees

What is read of a tree is its nodes and the text of its words. A bare tree has nothing
else: the tokens outside words are empty (`Tree.bare`). The parts of a bare view are the
bare parts of the view, and a word is not changed, so every reader can be followed through
`bare` step by step.
-/

namespace ServiceIdl

/-- The kinds of words, which say what their text says. -/
def Kind.isWord (kind : Kind) : Bool :=
  [.identifier, .namespaceName, .absoluteRootShapeId, .shapeId, .simpleTypeName, .enumTypeName,
    .aggregateTypeName, .entityTypeName, .number, .nodeKeyword, .quotedText,
    .textBlock].contains kind

mutual

/-- The tree without the text outside its words. -/
def Tree.bare : Tree → Tree
  | .token span _ => .token span ""
  | .node kind span children =>
    .node kind span (if kind.isWord then children else Tree.bareOfAll children)

/-- Consecutive trees without the text outside their words. -/
def Tree.bareOfAll : List Tree → List Tree
  | [] => []
  | tree :: rest => tree.bare :: Tree.bareOfAll rest

end

namespace Tree

theorem bareOfAll_eq_map (trees : List Tree) : bareOfAll trees = trees.map bare := by
  induction trees with
  | nil => rfl
  | cons tree rest ih => rw [bareOfAll, ih, List.map_cons]

@[simp] theorem kind_bare (tree : Tree) : tree.bare.kind = tree.kind := by
  cases tree <;> rfl

@[simp] theorem span_bare (tree : Tree) : tree.bare.span = tree.span := by
  cases tree <;> rfl

theorem bare_of_isWord {tree : Tree} (word : tree.kind.isWord = true) : tree.bare = tree := by
  cases tree with
  | token => cases word
  | node kind span children =>
    rw [bare]
    exact congrArg _ (if_pos word)

theorem children_bare {tree : Tree} (phrase : tree.kind.isWord = false) :
    tree.bare.children = tree.children.map bare := by
  cases tree with
  | token => rfl
  | node kind span inside =>
    rw [bare, children, children, ← bareOfAll_eq_map]
    exact if_neg (Bool.eq_false_iff.mp phrase)

end Tree

namespace Category

/-- The nodes of the category are words. -/
def isWord (c : Category) : Bool := c.kinds.all Kind.isWord

/-- No node of the category is a word. -/
def isPhrase (c : Category) : Bool := c.kinds.all fun kind => !kind.isWord

end Category

namespace View

variable {c d : Category}

/-- The view of the bare tree. -/
def bare (v : View c) : View c := ⟨v.tree.bare, by rw [Tree.kind_bare]; exact v.accepted⟩

@[simp] theorem tree_bare (v : View c) : v.bare.tree = v.tree.bare := rfl

@[simp] theorem span_bare (v : View c) : v.bare.span = v.span := v.tree.span_bare

theorem bare_of_isWord (word : c.isWord = true) (v : View c) : v.bare = v :=
  View.ext (Tree.bare_of_isWord (List.all_eq_true.mp word _ v.accepted))

/-- A bare tree is a view of the same category as before. -/
theorem of?_bare (d : Category) (tree : Tree) : of? d tree.bare = (of? d tree).map bare := by
  cases found : of? d tree with
  | none =>
    rw [of?_eq_none_iff] at found
    rw [Option.map_none, of?_eq_none_iff, Tree.kind_bare]
    exact found
  | some v =>
    rw [of?_eq_some_iff] at found
    rw [Option.map_some, of?_eq_some_iff, tree_bare, found]

theorem children_bare (phrase : c.isPhrase = true) (v : View c) :
    v.bare.tree.children = v.tree.children.map Tree.bare := by
  have plain := List.all_eq_true.mp phrase _ v.accepted
  exact Tree.children_bare (Bool.not_eq_true' _ ▸ plain)

/-- The parts of a bare phrase are its bare parts. -/
theorem many_bare (phrase : c.isPhrase = true) (v : View c) (d : Category) :
    v.bare.many d = (v.many d).map bare := by
  rw [many, many, children_bare phrase, List.filterMap_map, List.map_filterMap]
  congr 1
  funext tree
  exact of?_bare d tree

theorem optional_bare (phrase : c.isPhrase = true) (v : View c) (d : Category) :
    v.bare.optional d = (v.optional d).map bare := by
  rw [optional, optional, children_bare phrase]
  induction v.tree.children with
  | nil => rfl
  | cons child rest ih =>
    rw [List.map_cons, List.findSome?_cons, List.findSome?_cons, of?_bare, ih]
    cases of? d child <;> rfl

theorem required_bare (phrase : c.isPhrase = true) (v : View c) (d : Category) :
    v.bare.required d = (v.required d).map bare := by
  rw [required, required, optional_bare phrase, tree_bare, Tree.kind_bare, span_bare]
  cases v.optional d <;> rfl

/-! Words among the parts of a view are not changed. -/

theorem map_bare_of_isWord (word : d.isWord = true) : (bare : View d → View d) = id := by
  funext v
  exact bare_of_isWord word v

theorem many_word (phrase : c.isPhrase = true) (word : d.isWord = true) (v : View c) :
    v.bare.many d = v.many d := by
  rw [many_bare phrase, map_bare_of_isWord word, List.map_id]

theorem optional_word (phrase : c.isPhrase = true) (word : d.isWord = true) (v : View c) :
    v.bare.optional d = v.optional d := by
  rw [optional_bare phrase, map_bare_of_isWord word, Option.map_id_fun, id]

theorem required_word (phrase : c.isPhrase = true) (word : d.isWord = true) (v : View c) :
    v.bare.required d = v.required d := by
  rw [required_bare phrase, map_bare_of_isWord word]
  cases v.required d <;> rfl

end View

end ServiceIdl
