import ServiceIdl.Proofs.Text.Places
import ServiceIdl.Syntax.Tree

/-!
# Where trees stand in the text

A tree names the span of each of its parts and holds the text of its tokens. Both
agree if the tokens leave no gap: `Tree.Tiles` says that trees follow each other
without a gap from one offset to another, at every depth. Then every part stands
in the text exactly where its span says (`Tree.Tiles.holds`), and siblings lie one
behind the other inside their parent.
-/

namespace ServiceIdl

open Text (byteLength)

namespace Tree

/-! ## Parts of a tree -/

/-- The tree itself and everything inside it. -/
inductive Occurs (part : Tree) : Tree → Prop
  | self : Occurs part part
  | inside {tree child : Tree} : child ∈ tree.children → Occurs part child → Occurs part tree

theorem Occurs.trans {part middle tree : Tree} (lower : Occurs part middle)
    (upper : Occurs middle tree) : Occurs part tree := by
  induction upper with
  | self => exact lower
  | inside member _ ih => exact .inside member ih

/-- A tree has a line in its listing for everything inside it. -/
theorem exists_entry_of_occurs {part tree : Tree} (occurs : part.Occurs tree) (depth : Nat) :
    ∃ entry ∈ tree.listing depth, entry.kind = part.kind ∧ entry.span = part.span := by
  induction occurs generalizing depth with
  | self =>
    cases part with
    | token => exact ⟨_, List.mem_cons_self, rfl, rfl⟩
    | node => exact ⟨_, List.mem_cons_self, rfl, rfl⟩
  | @inside tree child member _ ih =>
    cases tree with
    | token => cases member
    | node kind span children =>
      obtain ⟨entry, listed, same⟩ := ih (depth + 1)
      refine ⟨entry, List.mem_cons_of_mem _ ?_, same⟩
      change child ∈ children at member
      induction children with
      | nil => cases member
      | cons first rest inner =>
        rw [listingOfAll]
        rcases List.mem_cons.mp member with rfl | later
        · exact List.mem_append_left _ listed
        · exact List.mem_append_right _ (inner later)

/-- The characters of trees that follow each other. -/
def charsOfAll (trees : List Tree) : List Char := (textOfAll trees).toList

theorem textOfAll_append (front behind : List Tree) :
    textOfAll (front ++ behind) = textOfAll front ++ textOfAll behind := by
  induction front with
  | nil => simp [textOfAll]
  | cons tree rest ih => simp [textOfAll, ih, String.append_assoc]

theorem charsOfAll_append (front behind : List Tree) :
    charsOfAll (front ++ behind) = charsOfAll front ++ charsOfAll behind := by
  simp [charsOfAll, textOfAll_append]

theorem charsOfAll_cons (tree : Tree) (rest : List Tree) :
    charsOfAll (tree :: rest) = tree.text.toList ++ charsOfAll rest := by
  simp [charsOfAll, textOfAll]

theorem charsOfAll_singleton (tree : Tree) : charsOfAll [tree] = tree.text.toList := by
  simp [charsOfAll, textOfAll]

/-! ## Trees without gaps -/

/-- The trees cover the text from `start` to `stop`, one behind the other, with
tokens that are not empty and nodes that are covered by what is inside them. -/
inductive Tiles : Nat → List Tree → Nat → Prop
  | nil {offset : Nat} : Tiles offset [] offset
  | token {start stop : Nat} {text : String} {rest : List Tree} :
    text ≠ "" → Tiles (start + byteLength text.toList) rest stop →
    Tiles start (.token ⟨start, start + byteLength text.toList⟩ text :: rest) stop
  | node {kind : Kind} {start middle stop : Nat} {children rest : List Tree} :
    Tiles start children middle → Tiles middle rest stop →
    Tiles start (.node kind ⟨start, middle⟩ children :: rest) stop

namespace Tiles

theorem append {start middle stop : Nat} {front behind : List Tree}
    (before : Tiles start front middle) (after : Tiles middle behind stop) :
    Tiles start (front ++ behind) stop := by
  induction before with
  | nil => exact after
  | token content _ ih => exact .token content (ih after)
  | node inner _ _ ih => exact .node inner (ih after)

/-- The trees cover as many bytes as their text has. -/
theorem stop_eq {start stop : Nat} {trees : List Tree} (tiles : Tiles start trees stop) :
    stop = start + byteLength (charsOfAll trees) := by
  induction tiles with
  | nil => simp [charsOfAll, textOfAll, byteLength]
  | token content _ ih => rw [ih, charsOfAll_cons, Text.byteLength_append, Nat.add_assoc, Tree.text]
  | node _ _ inner outer =>
    rw [outer, inner, charsOfAll_cons, Text.byteLength_append, Nat.add_assoc, Tree.text, charsOfAll]

theorem le {start stop : Nat} {trees : List Tree} (tiles : Tiles start trees stop) :
    start ≤ stop := by
  have length := tiles.stop_eq
  omega

/-- Trees that follow each other do not overlap, and stay within what they cover. -/
theorem pairwise {start stop : Nat} {trees : List Tree} (tiles : Tiles start trees stop) :
    (trees.Pairwise fun earlier later => earlier.span.stop ≤ later.span.start) ∧
      ∀ tree ∈ trees, start ≤ tree.span.start ∧ tree.span.stop ≤ stop := by
  induction tiles with
  | nil => simp
  | @token start stop text rest content tail ih =>
    rcases ih with ⟨apart, within⟩
    refine ⟨.cons (fun later member => (within later member).1) apart, ?_⟩
    intro tree member
    rcases List.mem_cons.mp member with rfl | later
    · exact ⟨Nat.le_refl _, tail.le⟩
    · obtain ⟨behind, inside⟩ := within tree later
      exact ⟨by omega, inside⟩
  | @node kind start middle stop children rest inner tail _ ih =>
    rcases ih with ⟨apart, within⟩
    refine ⟨.cons (fun later member => (within later member).1) apart, ?_⟩
    intro tree member
    rcases List.mem_cons.mp member with rfl | later
    · exact ⟨Nat.le_refl _, tail.le⟩
    · obtain ⟨behind, inside⟩ := within tree later
      have covered : start ≤ middle := inner.le
      exact ⟨by omega, inside⟩

end Tiles

/-! ## Trees in a text -/

/-- A tree stands in a text where its span says; a token is not empty, and a node
is covered by what is inside it. -/
structure Sits (text : List Char) (tree : Tree) : Prop where
  holds : Text.Holds text tree.span tree.text.toList
  content : tree.isNode = false → tree.text ≠ ""
  tiles : tree.isNode → Tiles tree.span.start tree.children tree.span.stop

/-- Each of the tiles of a stretch sits in the text where its span is. -/
theorem Tiles.sits {text : List Char} {start stop : Nat} {trees : List Tree} {tree : Tree}
    (tiles : Tiles start trees stop) (holds : Text.Holds text ⟨start, stop⟩ (charsOfAll trees))
    (member : tree ∈ trees) : tree.Sits text := by
  induction tiles with
  | nil => cases member
  | @token start stop word rest content tail ih =>
    rw [charsOfAll_cons] at holds
    obtain ⟨here, behind⟩ := holds.split
    rcases List.mem_cons.mp member with rfl | later
    · refine ⟨here, fun _ => content, ?_⟩
      intro node
      cases node
    · exact ih behind later
  | @node kind start middle stop children rest inner tail _ ih =>
    rw [charsOfAll_cons] at holds
    obtain ⟨here, behind⟩ := holds.split
    rw [Tree.text, ← charsOfAll, ← inner.stop_eq] at here behind
    rcases List.mem_cons.mp member with rfl | later
    · refine ⟨here, ?_, fun _ => inner⟩
      intro token
      cases token
    · exact ih behind later

/-- In a text where a tree sits, so does every part of it. -/
theorem Sits.of_occurs {text : List Char} {part tree : Tree} (sits : tree.Sits text)
    (occurs : part.Occurs tree) : part.Sits text := by
  induction occurs with
  | self => exact sits
  | @inside tree child member _ ih =>
    cases tree with
    | token => cases member
    | node kind span children => exact ih ((sits.tiles rfl).sits sits.holds member)

end Tree

end ServiceIdl
