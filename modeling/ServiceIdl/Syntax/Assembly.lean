import ServiceIdl.Syntax.Event
import ServiceIdl.Syntax.Tree

/-!
# Assembling a tree from events

`Tree.ofEvents` reads a sequence of events over a text and nests it into one
tree. Events of trivia kinds do not count. Whatever text lies between two events
becomes a token of the node that is open there; text before the root belongs to
the root, and text behind it is left out.

A sequence that is no balanced bracketing of one root, or whose offsets fall
back, leave the text or split a character, is refused with the first fault.
-/

namespace ServiceIdl

/-- Why a sequence of events makes no tree. -/
inductive StreamError where
  | emptyStream
  | unbalancedExit (kind : Kind) (offset : Nat)
  | mismatchedExit (expected found : Kind) (offset : Nat)
  | multipleRoots (kind : Kind) (offset : Nat)
  | offsetRegression (offset cursor : Nat)
  | offsetOutOfBounds (offset size : Nat)
  | unclosedNodes (count : Nat)
deriving DecidableEq, Repr

/-- The message of a stream error. -/
def StreamError.message : StreamError → String
  | .emptyStream => "event stream is empty"
  | .unbalancedExit kind offset =>
    "exit of " ++ kind.name ++ " at offset " ++ toString offset ++ " has no matching enter"
  | .mismatchedExit expected found offset =>
    "exit of " ++ found.name ++ " at offset " ++ toString offset ++ " closes open "
      ++ expected.name
  | .multipleRoots kind offset =>
    "second root " ++ kind.name ++ " entered at offset " ++ toString offset
  | .offsetRegression offset cursor =>
    "offset " ++ toString offset ++ " precedes already consumed offset " ++ toString cursor
  | .offsetOutOfBounds offset size =>
    "offset " ++ toString offset ++ " is outside the source text (length " ++ toString size
      ++ ")"
  | .unclosedNodes count => toString count ++ " node(s) still open at end of stream"

/-- A node that is open: where it was entered, where its text begins, and its
children so far, the newest first. -/
structure Frame where
  kind : Kind
  entered : Nat
  start : Nat
  children : List Tree

/-- A tree under construction. -/
structure Assembly where
  /-- The length of the text in bytes. -/
  size : Nat
  /-- The offset up to which the text stands in the tree, and the text behind. -/
  cursor : Nat
  rest : List Char
  /-- The open nodes, the innermost first. -/
  frames : List Frame
  /-- The root, once it is closed. -/
  root : Option Tree

namespace Assembly

/-- Nothing is built yet. -/
def ofText (text : String) : Assembly :=
  ⟨Text.byteLength text.toList, 0, text.toList, [], none⟩

/-- Puts a finished tree into the innermost open node. Without one it is the
root. -/
def place (a : Assembly) (tree : Tree) : Assembly :=
  match a.frames with
  | [] => { a with root := some tree }
  | frame :: outer =>
    { a with frames := { frame with children := tree :: frame.children } :: outer }

/-- Moves the cursor to an offset. The text passed becomes a token of the
innermost open node. -/
def advance (a : Assembly) (offset : Nat) : Except StreamError Assembly :=
  if offset < a.cursor then .error (.offsetRegression offset a.cursor)
  else if offset = a.cursor then .ok a
  else
    match Text.cut? (offset - a.cursor) a.rest with
    | some (passed, rest) =>
      .ok ({ a with cursor := offset, rest }.place
        (.token ⟨a.cursor, offset⟩ (String.ofList passed)))
    | none => .error (.offsetOutOfBounds offset a.size)

/-- Opens a node. -/
def enter (a : Assembly) (kind : Kind) (offset : Nat) : Except StreamError Assembly :=
  if a.frames.isEmpty then
    if a.root.isSome then .error (.multipleRoots kind offset)
    else { a with frames := [⟨kind, offset, 0, []⟩] }.advance offset
  else
    (a.advance offset).map fun b => { b with frames := ⟨kind, offset, offset, []⟩ :: b.frames }

/-- Closes the innermost open node. -/
def exit (a : Assembly) (kind : Kind) (offset : Nat) : Except StreamError Assembly :=
  match a.frames with
  | [] => .error (.unbalancedExit kind offset)
  | frame :: _ =>
    if frame.kind ≠ kind then .error (.mismatchedExit frame.kind kind offset)
    else if offset < frame.entered then .error (.offsetRegression offset frame.entered)
    else
      (a.advance offset).map fun b =>
        match b.frames with
        | [] => b
        | inner :: outer =>
          { b with frames := outer }.place
            (.node inner.kind ⟨inner.start, offset⟩ inner.children.reverse)

/-- Reads one event. -/
def step (a : Assembly) : Event → Except StreamError Assembly
  | .enter kind offset => if kind.isTrivia then .ok a else a.enter kind offset
  | .exit kind offset => if kind.isTrivia then .ok a else a.exit kind offset

/-- The tree, if the root is closed. -/
def finish (a : Assembly) : Except StreamError Tree :=
  match a.frames, a.root with
  | [], some tree => .ok tree
  | [], none => .error .emptyStream
  | frames, _ => .error (.unclosedNodes frames.length)

end Assembly

/-- The tree of a sequence of events over a text. -/
def Tree.ofEvents (text : String) (events : List Event) : Except StreamError Tree := do
  let a ← events.foldlM Assembly.step (Assembly.ofText text)
  a.finish

end ServiceIdl
