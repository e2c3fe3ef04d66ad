import ServiceIdl.Grammar.Recognition
import ServiceIdl.Syntax.Assembly

/-!
# The tree of a document

A text is recognised, and the events of its match are assembled into a tree. A
text that is no document has no tree but a rejection; that is no error. Only a
corrupt sequence of events would be one.
-/

namespace ServiceIdl

/-- The events of a document. -/
def documentEvents (text : String) : Except Rejection (List Event) :=
  (recognise text).map Event.ofMatches

/-- The tree of a document, or why the text is none. -/
def documentTree (text : String) : Except StreamError (Except Rejection Tree) :=
  match documentEvents text with
  | .error rejection => .ok (.error rejection)
  | .ok events => (Tree.ofEvents text events).map .ok

end ServiceIdl
