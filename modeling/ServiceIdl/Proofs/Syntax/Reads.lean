import ServiceIdl.Proofs.Syntax.Parts

/-!
# What is read off the nodes

A reader of views sees a list of trees; a match says which nodes they show. The two meet
in `Forest.Reads`: however trees in the text show these nodes, reading the views of one
category gives these results. Nodes one behind the other are read one after the other,
and a single node is read off its own text and the nodes inside it (`Tree.Shows`).
-/

namespace ServiceIdl

open Text (Holds)

variable {text : List Char} {c d : Category} {β : Type}

/-- A tree in the text that shows a node: it has its kind, stands where the node does,
and has these nodes inside it. -/
structure Tree.Shows (text : List Char) (kind : Kind) (start stop : Nat) (inside : Forest)
    (tree : Tree) : Prop where
  sits : tree.Sits text
  kind : tree.kind = kind
  span : tree.span = ⟨start, stop⟩
  inside : Forest.ofTrees tree.children = inside

/-- However trees in the text show the nodes, reading the views of a category gives
these results. -/
def Forest.Reads (text : List Char) (nodes : Forest) (read : View c → Except Defect β)
    (results : List β) : Prop :=
  ∀ trees : List Tree, (∀ tree ∈ trees, tree.Sits text) → Forest.ofTrees trees = nodes →
    (trees.filterMap (View.of? c)).mapM read = .ok results

namespace Forest

/-! ## Trees that show nodes -/

/-- Trees that show two forests are the trees of the one and then those of the other. -/
theorem exists_append_of_ofTrees {trees : List Tree} {front behind : Forest}
    (shown : ofTrees trees = front.append behind) :
    ∃ a b, trees = a ++ b ∧ ofTrees a = front ∧ ofTrees b = behind := by
  fun_induction ofTrees trees generalizing front with
  | case1 =>
    cases front with
    | nil => exact ⟨[], [], rfl, by rw [ofTrees], by rw [ofTrees]; exact shown⟩
    | cons => cases shown
  | case2 span word trees ih =>
    obtain ⟨a, b, rfl, shownFront, shownBehind⟩ := ih shown
    exact ⟨.token span word :: a, b, rfl, by rw [ofTrees]; exact shownFront, shownBehind⟩
  | case3 kind span children trees _ ih =>
    cases front with
    | nil =>
      refine ⟨[], .node kind span children :: trees, rfl, by rw [ofTrees], ?_⟩
      rw [ofTrees]
      exact shown
    | cons kind' start stop inside rest =>
      rw [append, cons.injEq] at shown
      rcases shown with ⟨rfl, rfl, rfl, rfl, shown⟩
      obtain ⟨a, b, rfl, shownFront, shownBehind⟩ := ih shown
      refine ⟨.node kind span children :: a, b, rfl, ?_, shownBehind⟩
      rw [ofTrees, shownFront]

/-- Trees that show one node are that node among tokens. -/
theorem exists_node_of_ofTrees {trees : List Tree} {kind : Kind} {start stop : Nat}
    {inside : Forest} (shown : ofTrees trees = .cons kind start stop inside .nil) :
    ∃ before children after, trees = before ++ .node kind ⟨start, stop⟩ children :: after ∧
      ofTrees before = .nil ∧ ofTrees children = inside ∧ ofTrees after = .nil := by
  fun_induction ofTrees trees with
  | case1 => cases shown
  | case2 span word trees ih =>
    obtain ⟨before, children, after, rfl, shownBefore, others⟩ := ih shown
    exact ⟨.token span word :: before, children, after, rfl, by rw [ofTrees, shownBefore], others⟩
  | case3 kind span children trees =>
    rw [cons.injEq] at shown
    rcases shown with ⟨rfl, rfl, rfl, shownInside, shownAfter⟩
    exact ⟨[], children, trees, rfl, by rw [ofTrees], shownInside, shownAfter⟩

/-- Trees that show no node of a category have no view of it. -/
theorem filterMap_of?_eq_nil {trees : List Tree} {nodes : Forest} (shown : ofTrees trees = nodes)
    (other : ∀ kind ∈ nodes.kinds, kind ∉ c.kinds) : trees.filterMap (View.of? c) = [] := by
  rw [List.filterMap_eq_nil_iff]
  intro tree member
  rw [View.of?_eq_none_iff]
  intro accepted
  have isNode := Category.isNode_of_mem_kinds accepted
  have listed : tree.kind ∈ nodes.kinds := by
    rw [← shown, kinds_ofTrees]
    exact List.mem_map_of_mem (List.mem_filter.mpr ⟨member, isNode⟩)
  exact other tree.kind listed accepted

/-! ## Reading nodes one after the other -/

namespace Reads

variable {nodes front behind inside : Forest} {read : View c → Except Defect β}
  {results more : List β}

/-- Nodes one behind the other are read one after the other. -/
theorem append (first : front.Reads text read results) (second : behind.Reads text read more) :
    (front.append behind).Reads text read (results ++ more) := by
  intro trees sit shown
  obtain ⟨a, b, rfl, shownFront, shownBehind⟩ := exists_append_of_ofTrees shown
  have readFront := first a (fun tree member => sit tree (List.mem_append_left b member)) shownFront
  have readBehind :=
    second b (fun tree member => sit tree (List.mem_append_right a member)) shownBehind
  rw [List.filterMap_append, List.mapM_append, readFront, Outcome.ok_bind, readBehind]
  rfl

/-- Nodes of other kinds are not read. -/
theorem absent (other : ∀ kind ∈ nodes.kinds, kind ∉ c.kinds) : nodes.Reads text read [] := by
  intro trees _ shown
  rw [filterMap_of?_eq_nil shown other]
  rfl

/-- A node is read if every tree that shows it is. -/
theorem single {kind : Kind} {start stop : Nat} {result : β} (accepted : kind ∈ c.kinds)
    (each : ∀ v : View c, v.tree.Shows text kind start stop inside → read v = .ok result) :
    (Forest.cons kind start stop inside .nil).Reads text read [result] := by
  intro trees sit shown
  obtain ⟨before, children, after, rfl, nothing, shownInside, nothing'⟩ :=
    exists_node_of_ofTrees shown
  have here : Tree.node kind ⟨start, stop⟩ children ∈
      before ++ .node kind ⟨start, stop⟩ children :: after := by simp
  have found : View.of? c (.node kind ⟨start, stop⟩ children) =
      some ⟨.node kind ⟨start, stop⟩ children, accepted⟩ :=
    View.of?_eq_some_iff.mpr rfl
  have known := each ⟨.node kind ⟨start, stop⟩ children, accepted⟩
    ⟨sit _ here, rfl, rfl, shownInside⟩
  rw [List.filterMap_append, filterMap_of?_eq_nil nothing (by simp [kinds]), List.nil_append,
    List.filterMap_cons_some found, filterMap_of?_eq_nil nothing' (by simp [kinds]),
    List.mapM_cons, known]
  rfl

end Reads

end Forest

/-! ## Reading what is inside a node -/

namespace View

variable {v : View c} {read : View d → Except Defect β} {result : β} {more : List β}

/-- The first view inside a node is the first of all that are read. -/
theorem exists_optional_of_mapM (known : (v.many d).mapM read = .ok (result :: more)) :
    ∃ child, v.optional d = some child ∧ read child = .ok result := by
  obtain ⟨child, others, found, known, -⟩ := Outcome.exists_cons_of_mapM known
  refine ⟨child, ?_, known⟩
  rw [optional, ← List.head?_filterMap]
  exact congrArg List.head? found

/-- If no view of a category is read, there is none. -/
theorem optional_eq_none_of_mapM (known : (v.many d).mapM read = .ok []) :
    v.optional d = none := by
  have none : v.many d = [] := by
    cases views : v.many d with
    | nil => rfl
    | cons child others =>
      rw [views, List.mapM_cons] at known
      obtain ⟨result, -, known⟩ := Outcome.bind_eq_ok_iff.mp known
      obtain ⟨results, -, known⟩ := Outcome.bind_eq_ok_iff.mp known
      cases known
  rw [optional, ← List.head?_filterMap]
  exact congrArg List.head? none

/-- Where many parts are read, the first of them is the required one. -/
theorem exists_required_of_mapM (known : (v.many d).mapM read = .ok (result :: more)) :
    ∃ child, v.required d = .ok child ∧ read child = .ok result := by
  obtain ⟨child, found, known⟩ := exists_optional_of_mapM known
  exact ⟨child, by rw [required, found], known⟩

/-- Reading the required part gives the first result. -/
theorem required_bind_of_mapM (known : (v.many d).mapM read = .ok (result :: more)) :
    v.required d >>= read = .ok result := by
  obtain ⟨child, found, known⟩ := exists_required_of_mapM known
  rw [found]
  exact known

end View

namespace Tree.Shows

variable {kind : Kind} {start stop : Nat} {inside : Forest}

/-- The views inside a node are read off the nodes inside it. -/
theorem mapM_many {v : View c} {read : View d → Except Defect β} {results : List β}
    (shown : v.tree.Shows text kind start stop inside) (reads : inside.Reads text read results) :
    (v.many d).mapM read = .ok results := by
  have sit : ∀ child ∈ v.tree.children, child.Sits text := by
    intro child member
    exact shown.sits.of_occurs (.inside member .self)
  exact reads v.tree.children sit shown.inside

/-- A node has the text that stands where it is. -/
theorem text_eq {tree : Tree} {word : List Char} (shown : tree.Shows text kind start stop inside)
    (holds : Holds text ⟨start, stop⟩ word) : tree.text.toList = word := by
  have here := shown.sits.holds
  rw [shown.span] at here
  exact here.unique holds

end Tree.Shows

end ServiceIdl
