import ServiceIdl.Peg.Run
import ServiceIdl.Syntax.Kind

/-!
# Enter and exit events

A tree of matches written as a flat sequence: an event where a rule begins to
match, the events inside it, and an event where it ends.
-/

namespace ServiceIdl

/-- The beginning or the end of a match, at a byte offset. -/
inductive Event where
  | enter (kind : Kind) (offset : Nat)
  | exit (kind : Kind) (offset : Nat)
deriving DecidableEq, Repr

mutual

/-- The events of a match. -/
def Event.ofMatch : Peg.Match Rule → List Event
  | .mk name start stop children =>
    .enter (.ofRule name) start :: (Event.ofMatches children ++ [.exit (.ofRule name) stop])

/-- The events of matches that follow each other. -/
def Event.ofMatches : List (Peg.Match Rule) → List Event
  | [] => []
  | m :: rest => Event.ofMatch m ++ Event.ofMatches rest

end

end ServiceIdl
