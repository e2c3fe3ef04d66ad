import ServiceIdl.Text.Bytes
import ServiceIdl.Syntax.Kind

/-!
# Syntax trees

A tree is a piece of text or a node with its children. The texts of a tree, from
left to right, make up the part of the document that it covers.
-/

namespace ServiceIdl

/-- A syntax tree. -/
inductive Tree where
  | token (span : Span) (text : String)
  | node (kind : Kind) (span : Span) (children : List Tree)
deriving Repr, Inhabited

namespace Tree

/-- What the tree is. Pieces of text are of a kind of their own. -/
def kind : Tree → Kind
  | .token .. => .text
  | .node kind .. => kind

/-- What the tree covers of the document. -/
def span : Tree → Span
  | .token span _ => span
  | .node _ span _ => span

/-- The children of a node, from left to right. -/
def children : Tree → List Tree
  | .token .. => []
  | .node _ _ children => children

/-- Whether the tree is a node, and no piece of text. -/
def isNode : Tree → Bool
  | .token .. => false
  | .node .. => true

mutual

/-- The text that a tree covers. -/
def text : Tree → String
  | .token _ text => text
  | .node _ _ children => textOfAll children

/-- The text that consecutive trees cover. -/
def textOfAll : List Tree → String
  | [] => ""
  | tree :: rest => tree.text ++ textOfAll rest

end

/-- The tree at the end of a path, which names at each node one of the children
that are nodes. -/
def descend? (tree : Tree) : List Nat → Option Tree
  | [] => some tree
  | n :: path => ((tree.children.filter isNode)[n]?).bind fun child => child.descend? path

/-- A line of a listing: how deep a tree stands, what it is and what it covers. -/
structure Entry where
  depth : Nat
  isNode : Bool
  kind : Kind
  span : Span
deriving DecidableEq, Repr

mutual

/-- A tree and all trees inside it, each before its children. -/
def listing (depth : Nat) : Tree → List Entry
  | .token span _ => [⟨depth, false, .text, span⟩]
  | .node kind span children => ⟨depth, true, kind, span⟩ :: listingOfAll (depth + 1) children

/-- The listings of consecutive trees. -/
def listingOfAll (depth : Nat) : List Tree → List Entry
  | [] => []
  | tree :: rest => tree.listing depth ++ listingOfAll depth rest

end

end Tree

end ServiceIdl
