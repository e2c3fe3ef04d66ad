import ServiceIdl.Proofs.Decimal.Written
import ServiceIdl.Render.Datum

/-!
# Data that can be told apart

A format without types can show a text and an integer alike, if the integer is too large for
its readers. Two data are comparable if this does not happen at any place that both of them
have (`Datum.Comparable`).
-/

namespace ServiceIdl

namespace Datum

/-- A name of letters. -/
def isWord (name : String) : Bool := !name.toList.isEmpty && name.toList.all Char.isAlpha

mutual

/-- Where one of the data has an integer and the other a text, the integer has 64 signed bits.
Where both have a record, they have the same names, which are words. -/
def Comparable : Datum → Datum → Prop
  | .int n, .text _ => Decimal.IsSigned64 n
  | .text _, .int n => Decimal.IsSigned64 n
  | .list items, .list others => ComparableItems items others
  | .record fields, .record others => ComparableFields fields others
  | _, _ => True

/-- Comparable elements, as far as both lists go. -/
def ComparableItems : List Datum → List Datum → Prop
  | item :: items, other :: others => item.Comparable other ∧ ComparableItems items others
  | _, _ => True

/-- Comparable fields, as far as both records go. -/
def ComparableFields : List (String × Datum) → List (String × Datum) → Prop
  | (name, value) :: fields, (name', value') :: others =>
    (isWord name = true ∧ name = name') ∧ value.Comparable value' ∧ ComparableFields fields others
  | _, _ => True

end

namespace Comparable

theorem text {s t : String} : Comparable (.text s) (.text t) := trivial

theorem bool {b c : Bool} : Comparable (.bool b) (.bool c) := trivial

theorem int {m n : Int} : Comparable (.int m) (.int n) := trivial

theorem nat {m n : Nat} : Comparable (.nat m) (.nat n) := int

/-- Records are compared as far as both of them go. -/
theorem done {others : List (String × Datum)} : Comparable (.record []) (.record others) := trivial

theorem done_right {fields : List (String × Datum)} :
    Comparable (.record fields) (.record []) := by
  cases fields <;> trivial

/-- One field more. -/
theorem field {name : String} {d e : Datum} {fields others : List (String × Datum)}
    (word : isWord name = true) (first : d.Comparable e)
    (later : Comparable (.record fields) (.record others)) :
    Comparable (.record ((name, d) :: fields)) (.record ((name, e) :: others)) :=
  ⟨⟨word, rfl⟩, first, later⟩

/-- Lists whose elements are made by one function. -/
theorem each {α : Type} {f : α → Datum} {items others : List α}
    (comparable : ∀ a ∈ items, ∀ b ∈ others, (f a).Comparable (f b)) :
    (Datum.each f items).Comparable (Datum.each f others) := by
  change ComparableItems (items.map f) (others.map f)
  induction items generalizing others with
  | nil => cases others <;> trivial
  | cons a items ih =>
    cases others with
    | nil => trivial
    | cons b others =>
      refine ⟨comparable a List.mem_cons_self b List.mem_cons_self, ih fun c inside d inside' => ?_⟩
      exact comparable c (List.mem_cons_of_mem a inside) d (List.mem_cons_of_mem b inside')

/-- What is absent is comparable with everything. -/
theorem null_left (d : Datum) : Comparable .null d := by
  cases d <;> trivial

/-- With `null` everything can be compared, from either side. -/
theorem null_right (d : Datum) : d.Comparable .null := by
  cases d <;> trivial

/-- What may be absent is compared where both are there. -/
theorem optional {α : Type} {f : α → Datum} {a? b? : Option α}
    (comparable : ∀ a, a? = some a → ∀ b, b? = some b → (f a).Comparable (f b)) :
    (Datum.optional f a?).Comparable (Datum.optional f b?) := by
  cases a? with
  | none => exact null_left _
  | some a =>
    cases b? with
    | none => exact null_right _
    | some b => exact comparable a rfl b rfl

end Comparable

/-- The datum is a text, or an integer of 64 signed bits. -/
inductive IsScalar : Datum → Prop
  | int {n : Int} : Decimal.IsSigned64 n → IsScalar (.int n)
  | text {s : String} : IsScalar (.text s)

/-- Scalars can be compared whatever their kinds are. -/
theorem IsScalar.comparable {d e : Datum} (scalar : d.IsScalar) (scalar' : e.IsScalar) :
    d.Comparable e := by
  cases scalar with
  | int fits =>
    cases scalar' with
    | int => trivial
    | text => exact fits
  | text =>
    cases scalar' with
    | int fits => exact fits
    | text => trivial

end Datum

end ServiceIdl
