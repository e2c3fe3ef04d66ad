import ServiceIdl.Proofs.Grammar.Spacing
import ServiceIdl.Proofs.Syntax.Bare

/-!
# Trees and spacing

Assembling a tree copies pieces of the text and never looks into them, so the tree of a
uniform text is the tree of the text with uniform tokens (`documentTree_uniform`). What
is read of a tree is its nodes and the text of its words. `Tree.bare` empties all other
tokens, and texts that differ in their spacing only, and not inside a word, have trees
that are equal when bare (`Tree.bare_eq_of_uniform_eq`).
-/

namespace ServiceIdl

open Text (byteLength)

/-! ## Uniform trees -/

mutual

/-- The tree with uniform tokens. -/
def Tree.uniform : Tree → Tree
  | .token span text => .token span (String.ofList (Text.uniform text.toList))
  | .node kind span children => .node kind span (Tree.uniformOfAll children)

/-- Consecutive trees with uniform tokens. -/
def Tree.uniformOfAll : List Tree → List Tree
  | [] => []
  | tree :: rest => tree.uniform :: Tree.uniformOfAll rest

end

namespace Tree

theorem uniformOfAll_eq_map (trees : List Tree) : uniformOfAll trees = trees.map uniform := by
  induction trees with
  | nil => rfl
  | cons tree rest ih => rw [uniformOfAll, ih, List.map_cons]

mutual

/-- The text of a uniform tree is the uniform text. -/
theorem toList_text_uniform (tree : Tree) :
    tree.uniform.text.toList = Text.uniform tree.text.toList := by
  cases tree with
  | token => rw [uniform, text, text, String.toList_ofList]
  | node kind span children =>
    rw [uniform, text, text]
    exact charsOfAll_uniform children

theorem charsOfAll_uniform (trees : List Tree) :
    charsOfAll (uniformOfAll trees) = Text.uniform (charsOfAll trees) := by
  cases trees with
  | nil => rfl
  | cons tree rest =>
    rw [uniformOfAll, charsOfAll_cons, charsOfAll_cons, Text.uniform_append,
      toList_text_uniform tree, charsOfAll_uniform rest]

end

end Tree

/-! ## Assembling -/

/-- The frame with uniform trees. -/
def Frame.uniform (frame : Frame) : Frame :=
  { frame with children := frame.children.map Tree.uniform }

namespace Assembly

/-- The assembly over the uniform text. -/
def uniform (a : Assembly) : Assembly :=
  { a with
    rest := Text.uniform a.rest
    frames := a.frames.map Frame.uniform
    root := a.root.map Tree.uniform }

/-- Putting a tree into place commutes with making the text uniform. -/
theorem uniform_place (a : Assembly) (tree : Tree) :
    a.uniform.place tree.uniform = (a.place tree).uniform := by
  rcases a with ⟨size, cursor, rest, frames, root⟩
  cases frames <;> rfl

theorem uniform_advance (a : Assembly) (offset : Nat) :
    a.uniform.advance offset = (a.advance offset).map uniform := by
  unfold advance
  rw [show a.uniform.cursor = a.cursor from rfl, show a.uniform.rest = Text.uniform a.rest from rfl,
    Text.cut?_uniform]
  split
  · rfl
  · split
    · rfl
    · cases Text.cut? (offset - a.cursor) a.rest with
      | none => rfl
      | some parts =>
        rcases parts with ⟨passed, rest⟩
        have placed := uniform_place { a with cursor := offset, rest }
          (.token ⟨a.cursor, offset⟩ (String.ofList passed))
        rw [Tree.uniform, String.toList_ofList] at placed
        exact congrArg Except.ok placed

theorem uniform_enter (a : Assembly) (kind : Kind) (offset : Nat) :
    a.uniform.enter kind offset = (a.enter kind offset).map uniform := by
  have advanced := uniform_advance a offset
  have opened := uniform_advance { a with frames := [⟨kind, offset, 0, []⟩] } offset
  rcases a with ⟨size, cursor, rest, frames, root⟩
  cases frames with
  | nil =>
    cases root with
    | none => exact opened
    | some tree => rfl
  | cons frame outer =>
    change ((uniform ⟨size, cursor, rest, frame :: outer, root⟩).advance offset).map _ =
      ((advance ⟨size, cursor, rest, frame :: outer, root⟩ offset).map _).map uniform
    rw [advanced]
    cases advance ⟨size, cursor, rest, frame :: outer, root⟩ offset <;> rfl

/-- The innermost open node is closed. -/
theorem uniform_exit (a : Assembly) (kind : Kind) (offset : Nat) :
    a.uniform.exit kind offset = (a.exit kind offset).map uniform := by
  have advanced := uniform_advance a offset
  rcases a with ⟨size, cursor, rest, frames, root⟩
  cases frames with
  | nil => rfl
  | cons frame outer =>
    change (if frame.kind ≠ kind then _ else if offset < frame.entered then _ else
      ((uniform ⟨size, cursor, rest, frame :: outer, root⟩).advance offset).map _) =
      Except.map uniform (if frame.kind ≠ kind then _ else if offset < frame.entered then _ else
      ((advance ⟨size, cursor, rest, frame :: outer, root⟩ offset).map _))
    rw [advanced]
    split
    · rfl
    · split
      · rfl
      · cases advance ⟨size, cursor, rest, frame :: outer, root⟩ offset with
        | error => rfl
        | ok b =>
          rcases b with ⟨size', cursor', rest', frames', root'⟩
          cases frames' with
          | nil => rfl
          | cons inner behind =>
            refine congrArg Except.ok ?_
            have placed := uniform_place ⟨size', cursor', rest', behind, root'⟩
              (.node inner.kind ⟨inner.start, offset⟩ inner.children.reverse)
            rw [Tree.uniform, Tree.uniformOfAll_eq_map, List.map_reverse] at placed
            exact placed

/-- Each step of an assembly commutes with making the text uniform. -/
theorem uniform_step (a : Assembly) (event : Event) :
    a.uniform.step event = (a.step event).map uniform := by
  cases event with
  | enter kind offset =>
    rw [step, step]
    split
    · rfl
    · exact uniform_enter a kind offset
  | exit kind offset =>
    rw [step, step]
    split
    · rfl
    · exact uniform_exit a kind offset

theorem uniform_finish (a : Assembly) : a.uniform.finish = a.finish.map Tree.uniform := by
  rcases a with ⟨size, cursor, rest, frames, root⟩
  cases frames with
  | nil => cases root <;> rfl
  | cons frame outer =>
    change Except.error (StreamError.unclosedNodes ((frame :: outer).map Frame.uniform).length) = _
    rw [List.length_map]
    rfl

end Assembly

/-- The tree over a uniform text is the uniform tree. -/
theorem Tree.ofEvents_uniform (text : String) (events : List Event) :
    ofEvents (String.ofList (Text.uniform text.toList)) events =
      (ofEvents text events).map Tree.uniform := by
  have start : Assembly.ofText (String.ofList (Text.uniform text.toList)) =
      (Assembly.ofText text).uniform := by
    simp [Assembly.ofText, Assembly.uniform]
  rw [ofEvents, ofEvents, start, Outcome.foldlM_map Assembly.uniform_step]
  cases events.foldlM Assembly.step (Assembly.ofText text) with
  | error => rfl
  | ok a => exact Assembly.uniform_finish a

/-- The document of a uniform text is the uniform document. -/
theorem documentTree_uniform (text : String) :
    documentTree (String.ofList (Text.uniform text.toList)) =
      (documentTree text).map (Except.map Tree.uniform) := by
  have same : documentEvents (String.ofList (Text.uniform text.toList)) = documentEvents text := by
    rw [documentEvents, documentEvents, recognise_uniform]
  delta documentTree
  rw [same]
  cases documentEvents text with
  | error rejection => rfl
  | ok events =>
    simp only
    rw [Tree.ofEvents_uniform]
    cases Tree.ofEvents text events <;> rfl

/-- Two texts with one uniform text have one tree up to the spacing of its tokens. -/
theorem Tree.uniform_eq_of_documentTree {text other : String} {tree tree' : Tree}
    (same : Text.uniform text.toList = Text.uniform other.toList)
    (made : documentTree text = .ok (.ok tree)) (made' : documentTree other = .ok (.ok tree')) :
    tree.uniform = tree'.uniform := by
  have left := documentTree_uniform text
  rw [same, documentTree_uniform, made, made'] at left
  exact (Except.ok.inj (Except.ok.inj left)).symm

/-! ## Bare trees -/

namespace Tree

mutual

/-- Only its text tells a tree from others with equal uniform tokens. -/
theorem eq_of_uniform_eq {tree tree' : Tree} (same : tree.uniform = tree'.uniform)
    (equal : tree.text = tree'.text) : tree = tree' := by
  cases tree with
  | token span text =>
    cases tree' with
    | node => cases same
    | token span' text' =>
      simp only [uniform, token.injEq] at same
      rw [same.1, show text = text' from equal]
  | node kind span inside =>
    cases tree' with
    | token => cases same
    | node kind' span' inside' =>
      simp only [uniform, node.injEq] at same
      rcases same with ⟨rfl, rfl, same⟩
      have chars : charsOfAll inside = charsOfAll inside' := congrArg String.toList equal
      rw [eq_of_uniformOfAll_eq same chars]

/-- Trees that are uniformly the same and hold the same text are equal. -/
theorem eq_of_uniformOfAll_eq {trees trees' : List Tree}
    (same : uniformOfAll trees = uniformOfAll trees')
    (equal : charsOfAll trees = charsOfAll trees') : trees = trees' := by
  cases trees with
  | nil =>
    cases trees' with
    | nil => rfl
    | cons => cases same
  | cons tree rest =>
    cases trees' with
    | nil => cases same
    | cons tree' rest' =>
      rw [uniformOfAll, uniformOfAll, List.cons.injEq] at same
      rcases same with ⟨head, tail⟩
      rw [charsOfAll_cons, charsOfAll_cons] at equal
      have length : byteLength tree.text.toList = byteLength tree'.text.toList := by
        rw [← Text.byteLength_uniform, ← toList_text_uniform, head, toList_text_uniform,
          Text.byteLength_uniform]
      obtain ⟨front, behind⟩ := Text.append_inj_of_byteLength equal length
      rw [eq_of_uniform_eq head (String.toList_inj.mp front), eq_of_uniformOfAll_eq tail behind]

end

/-- Two texts have the same words where a tree has them. -/
def WordsAgree (text other : List Char) (tree : Tree) : Prop :=
  ∀ part, Occurs part tree → part.kind.isWord = true →
    ∀ a b, Text.Holds text part.span a → Text.Holds other part.span b → a = b

mutual

/-- Trees with equal uniform tokens, over texts with the same words, are equal when bare. -/
theorem bare_eq_of_uniform_eq {text other : List Char} {tree tree' : Tree}
    (same : tree.uniform = tree'.uniform) (sits : tree.Sits text) (sits' : tree'.Sits other)
    (words : tree.WordsAgree text other) : tree.bare = tree'.bare := by
  cases tree with
  | token span text =>
    cases tree' with
    | node => cases same
    | token span' text' =>
      simp only [uniform, token.injEq] at same
      rw [bare, bare, same.1]
  | node kind span inside =>
    cases tree' with
    | token => cases same
    | node kind' span' inside' =>
      simp only [uniform, node.injEq] at same
      rcases same with ⟨rfl, rfl, same⟩
      rw [bare, bare]
      by_cases word : kind.isWord = true
      · have equal := words _ .self word _ _ sits.holds sits'.holds
        rw [eq_of_uniformOfAll_eq same equal]
      · rw [if_neg word, if_neg word, bareOfAll_eq_of_uniformOfAll_eq same]
        · intro child member
          exact sits.of_occurs (.inside member .self)
        · intro child member
          exact sits'.of_occurs (.inside member .self)
        · intro child member part occurs
          exact words part (occurs.trans (.inside member .self))

/-- Trees that are uniformly the same are the same but for the text outside of their words, if the
words agree. -/
theorem bareOfAll_eq_of_uniformOfAll_eq {text other : List Char} {trees trees' : List Tree}
    (same : uniformOfAll trees = uniformOfAll trees') (sits : ∀ tree ∈ trees, tree.Sits text)
    (sits' : ∀ tree ∈ trees', tree.Sits other)
    (words : ∀ tree ∈ trees, tree.WordsAgree text other) : bareOfAll trees = bareOfAll trees' := by
  cases trees with
  | nil =>
    cases trees' with
    | nil => rfl
    | cons => cases same
  | cons tree rest =>
    cases trees' with
    | nil => cases same
    | cons tree' rest' =>
      rw [uniformOfAll, uniformOfAll, List.cons.injEq] at same
      rcases same with ⟨head, tail⟩
      have here := List.mem_cons_self (a := tree) (l := rest)
      have here' := List.mem_cons_self (a := tree') (l := rest')
      rw [bareOfAll, bareOfAll,
        bare_eq_of_uniform_eq head (sits tree here) (sits' tree' here') (words tree here),
        bareOfAll_eq_of_uniformOfAll_eq tail]
      · exact fun child later => sits child (List.mem_cons_of_mem tree later)
      · exact fun child later => sits' child (List.mem_cons_of_mem tree' later)
      · exact fun child later => words child (List.mem_cons_of_mem tree later)

end

end Tree

end ServiceIdl
