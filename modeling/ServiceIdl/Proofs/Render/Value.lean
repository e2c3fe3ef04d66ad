import ServiceIdl.Proofs.Decimal.Written
import ServiceIdl.Render.Datum

/-!
# Data as values

`Datum.value` is the value that a written datum is to be read back as: the same tree, with
the fields of records as entries in the same order. An integer is read back as itself if
it has 64 signed bits, so `Datum.Fits` asks this of all integers in a datum.
-/

namespace ServiceIdl

namespace Datum

mutual

/-- The value that a datum is read back as. -/
def value : Datum → Value
  | .null => .null
  | .bool b => .bool b
  | .int n => .number (.integer n)
  | .text s => .string s
  | .list items => .array (values items)
  | .record fields => .object (entries fields)

/-- The values of the elements of a list. -/
def values : List Datum → List Value
  | [] => []
  | item :: items => item.value :: values items

/-- The entries of the fields of a record. -/
def entries : List (String × Datum) → List (String × Value)
  | [] => []
  | (name, field) :: fields => (name, field.value) :: entries fields

end

theorem values_eq_map (items : List Datum) : values items = items.map value := by
  induction items with
  | nil => rw [values, List.map_nil]
  | cons item items ih => rw [values, List.map_cons, ih]

theorem entries_eq_map (fields : List (String × Datum)) :
    entries fields = fields.map fun (name, field) => (name, field.value) := by
  induction fields with
  | nil => rw [entries, List.map_nil]
  | cons field fields ih =>
    rcases field with ⟨name, field⟩
    rw [entries, List.map_cons, ih]

/-- All integers in a datum have 64 signed bits. -/
inductive Fits : Datum → Prop
  | null : Fits .null
  | bool {b : Bool} : Fits (.bool b)
  | int {n : Int} : Decimal.IsSigned64 n → Fits (.int n)
  | text {s : String} : Fits (.text s)
  | list {items : List Datum} : (∀ item ∈ items, Fits item) → Fits (.list items)
  | record {fields : List (String × Datum)} : (∀ field ∈ fields, Fits field.2) →
    Fits (.record fields)

namespace Fits

/-- A record without fields. -/
theorem done : Fits (.record []) := .record (by simp)

/-- One field more. -/
theorem field {name : String} {d : Datum} {fields : List (String × Datum)} (first : d.Fits)
    (others : Fits (.record fields)) : Fits (.record ((name, d) :: fields)) := by
  cases others with
  | record others => exact .record (List.forall_mem_cons.mpr ⟨first, others⟩)

/-- A natural number below the largest signed one of 64 bits. -/
theorem nat {n : Nat} (small : n < 0x8000000000000000) : (Datum.nat n).Fits := by
  refine .int ?_
  unfold Decimal.IsSigned64 Decimal.minSigned64 Decimal.maxSigned64
  omega

theorem each {α : Type} {f : α → Datum} {items : List α} (fits : ∀ item ∈ items, (f item).Fits) :
    (Datum.each f items).Fits := by
  refine .list ?_
  intro d member
  obtain ⟨item, present, rfl⟩ := List.mem_map.mp member
  exact fits item present

theorem optional {α : Type} {f : α → Datum} {item : Option α}
    (fits : ∀ a, item = some a → (f a).Fits) : (Datum.optional f item).Fits := by
  cases item with
  | none => exact .null
  | some a => exact fits a rfl

end Fits

end Datum

end ServiceIdl
