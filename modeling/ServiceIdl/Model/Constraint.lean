import ServiceIdl.Model.Finding
import ServiceIdl.Shape.Trait

/-!
# Constraints

The traits that restrict the values of a member become constraints. A list of
traits gives the constraints of each in turn, without repetition. A trait that
is no restriction is reported, whatever its body says.
-/

namespace ServiceIdl

/-- A restriction on the values of a member. -/
inductive Constraint where
  | required
  | minLength (n : Nat)
  | maxLength (n : Nat)
  | pattern (text : String)
  | atLeast (n : Int)
  | atMost (n : Int)
  | uniqueItems
deriving DecidableEq, Repr

namespace Trait

/-- An integer of the body. -/
def bound? (t : Trait) (key : String) : Option Int :=
  ((t.field? key).bind Value.number?).bind Numeric.integer?

/-- An integer of the body that is not negative. -/
def length? (t : Trait) (key : String) : Option Nat :=
  ((t.bound? key).filter (0 ≤ ·)).map Int.toNat

/-- The text of a pattern: as written between its quotes, or that of a block. -/
def pattern? (t : Trait) : Option String :=
  match t.verbatim with
  | some raw => some raw
  | none => t.value?.bind Value.string?

end Trait

namespace Constraint

/-- The constraints that a trait stands for, if it is a restriction at all. -/
def ofTrait? (t : Trait) : Option (List Constraint) :=
  match t.id with
  | "required" => some [.required]
  | "length" =>
    some (((t.length? "min").map minLength).toList ++ ((t.length? "max").map maxLength).toList)
  | "pattern" => some (t.pattern?.map pattern).toList
  | "range" =>
    some (((t.bound? "min").map atLeast).toList ++ ((t.bound? "max").map atMost).toList)
  | "uniqueItems" => some [.uniqueItems]
  | _ => none

/-- The constraints of a list of traits, in the order of first occurrence. -/
def ofTraits (traits : List Trait) : List Constraint :=
  (traits.flatMap fun t => (ofTrait? t).getD []).eraseDups

/-- The report on a trait that is no restriction. -/
def report? (t : Trait) : Option Report :=
  if (ofTrait? t).isNone then some ⟨.unknownTrait t.id, t.span⟩ else none

/-- The reports on a list of traits. -/
def reports (traits : List Trait) : List Report := traits.filterMap report?

end Constraint

end ServiceIdl
