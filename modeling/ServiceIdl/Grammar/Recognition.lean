import ServiceIdl.Peg.Run
import ServiceIdl.Grammar.Table

/-!
# Recognising a document

`recognise` matches a whole text against the document grammar. A text that is no
document is rejected at the farthest offset that any rule reached, with the
rules tried there.
-/

namespace ServiceIdl

/-- Why a text is no document: the farthest offset reached, and the rules that
were wanted and not wanted there, in order and without repetition. -/
structure Rejection where
  offset : Nat
  wanted : List Rule
  unwanted : List Rule
deriving DecidableEq, Repr

/-- The rules on record, in their order and without repetition. -/
def Rejection.ofAttempts (a : Peg.Attempts Rule) : Rejection :=
  { offset := a.offset
    wanted := Rule.all.filter (a.wanted.contains ·)
    unwanted := Rule.all.filter (a.unwanted.contains ·) }

/-- A listing of names: `a`, `a or b`, and from three on `a, b, or c`. -/
def listing : List String → String
  | [] => ""
  | [a] => a
  | [a, b] => a ++ " or " ++ b
  | names => ", ".intercalate names.dropLast ++ ", or " ++ names.getLastD ""

/-- The message of a rejection. -/
def Rejection.message (r : Rejection) : String :=
  let wanted := listing (r.wanted.map Rule.name)
  let unwanted := listing (r.unwanted.map Rule.name)
  match r.unwanted.isEmpty, r.wanted.isEmpty with
  | true, true => "unknown parsing error"
  | true, false => "expected " ++ wanted
  | false, true => "unexpected " ++ unwanted
  | false, false => "unexpected " ++ unwanted ++ "; expected " ++ wanted

/-- A bound on the depth of the calls that a text of this many characters needs.
Between two characters that are consumed the depth grows by the size of the
grammar at most. -/
def depthBound (length : Nat) : Nat := 1024 * (length + 1)

/-- The context in which a document is matched. -/
def documentContext : Peg.Context := ⟨.loose, .plain⟩

/-- The state in which a document is matched. -/
def initialState (text : List Char) : Peg.State Rule := ⟨text, 0, [], .initial⟩

/-- Matches a whole text as a document. -/
def recognise (text : String) : Except Rejection (List (Peg.Match Rule)) :=
  let chars := text.toList
  match Peg.run documentGrammar (depthBound chars.length) documentContext (.rule .idl)
      (initialState chars) with
  | .matched s => .ok s.trail.reverse
  | .failed a => .error (.ofAttempts a)
  | .exhausted => .error ⟨0, [], []⟩

end ServiceIdl
