/-!
# Data

What a format writes: ordered trees of records and lists over integers, texts,
truth values and the absent value. Field names and their order belong to the
data, so every format shows the same tree.
-/

namespace ServiceIdl

/-- An ordered tree of data. -/
inductive Datum where
  /-- Something optional is absent. -/
  | null
  | bool (b : Bool)
  | int (n : Int)
  | text (s : String)
  | list (items : List Datum)
  | record (fields : List (String × Datum))
deriving Repr, Inhabited

namespace Datum

/-- A natural number. -/
def nat (n : Nat) : Datum := .int n

/-- A datum for each element. -/
def each {α : Type} (f : α → Datum) (items : List α) : Datum := .list (items.map f)

/-- The datum of what may be absent. -/
def optional {α : Type} (f : α → Datum) : Option α → Datum
  | some a => f a
  | none => .null

end Datum

end ServiceIdl
