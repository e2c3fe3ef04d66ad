import ServiceIdl.Proofs.Lists
import ServiceIdl.Proofs.Render.Value
import ServiceIdl.Render.Fields

/-!
# Data tell resolutions apart

Resolutions with the same data are equal, and data with the same value are: a record shows
every part of what it is the data of, the names of closed types differ, and what is absent
is shown in no other way. So a resolution is determined by the value that its data are
read back as (`Resolution.eq_of_value_datum_eq`).
-/

namespace ServiceIdl

open Function (Injective)

/-! ## Data -/

namespace Datum

/-- Data with the same value are the same. -/
theorem eq_of_value_eq (d e : Datum) (same : d.value = e.value) : d = e := by
  cases d with
  | null => cases e <;> first | rfl | cases same
  | bool b =>
    cases e with
    | bool c =>
      cases same
      rfl
    | null | int | text | list | record => cases same
  | int n =>
    cases e with
    | int m =>
      cases same
      rfl
    | null | bool | text | list | record => cases same
  | text s =>
    cases e with
    | text t =>
      cases same
      rfl
    | null | bool | int | list | record => cases same
  | list items =>
    cases e with
    | list others =>
      have alike : items.map value = others.map value := by
        rw [← values_eq_map, ← values_eq_map]
        exact Value.array.inj same
      rw [eq_of_map_eq (fun item member other => eq_of_value_eq item other) alike]
    | null | bool | int | text | record => cases same
  | record fields =>
    cases e with
    | record others =>
      have alike := Value.object.inj same
      rw [entries_eq_map, entries_eq_map] at alike
      refine congrArg record (eq_of_map_eq ?_ alike)
      rintro ⟨name, field⟩ member ⟨name', field'⟩ same
      have below := List.sizeOf_lt_of_mem member
      rw [Prod.mk.injEq] at same
      rw [same.1, eq_of_value_eq field field' same.2]
    | null | bool | int | text | list => cases same
termination_by sizeOf d
decreasing_by
  · have below := List.sizeOf_lt_of_mem member
    subst_vars
    simp only [list.sizeOf_spec]
    omega
  · subst_vars
    simp only [Prod.mk.sizeOf_spec] at below
    simp only [record.sizeOf_spec]
    omega

theorem nat_inj {m n : Nat} : Datum.nat m = Datum.nat n ↔ m = n := by
  unfold Datum.nat
  rw [int.injEq, Int.ofNat_inj]

/-- Lists made with a function that keeps its arguments apart. -/
theorem each_inj {α : Type} {f : α → Datum} (apart : Injective f) {as bs : List α} :
    Datum.each f as = Datum.each f bs ↔ as = bs := by
  unfold Datum.each
  rw [list.injEq, List.map_inj_right fun _ _ same => apart same]

/-- What is absent differs from what is shown if nothing is shown as absent. -/
theorem optional_inj {α : Type} {f : α → Datum} (apart : Injective f) (shown : ∀ a, f a ≠ .null)
    {a b : Option α} : Datum.optional f a = Datum.optional f b ↔ a = b := by
  constructor
  · intro same
    cases a with
    | none =>
      cases b with
      | none => rfl
      | some b => exact absurd same.symm (shown b)
    | some a =>
      cases b with
      | none => exact absurd same (shown a)
      | some b => rw [apart same]
  · intro same
    rw [same]

theorem text_injective : Injective Datum.text := fun _ _ same => Datum.text.inj same

/-- Optional texts. -/
theorem optional_text_inj {a b : Option String} :
    Datum.optional .text a = Datum.optional .text b ↔ a = b :=
  optional_inj text_injective (by simp)

end Datum

/-! ## Names of closed types -/

/-- No two codes share a name. The other families of names follow. -/
theorem Code.name_injective : Injective Code.name := by
  intro a b same
  have found := congrArg Code.ofName? same
  rw [Code.ofName?_name, Code.ofName?_name] at found
  exact Option.some.inj found

theorem Severity.name_injective : Injective Severity.name := by
  intro a b same
  cases a <;> cases b <;> first | rfl | exact absurd same (by decide)

theorem HttpVerb.name_injective : Injective HttpVerb.name := by
  intro a b same
  cases a <;> cases b <;> first | rfl | exact absurd same (by decide)

theorem Scalar.name_injective : Injective Scalar.name := by
  intro a b same
  cases a <;> cases b <;> first | rfl | exact absurd same (by decide)

theorem EnumKind.name_injective : Injective EnumKind.name := by
  intro a b same
  cases a <;> cases b <;> first | rfl | exact absurd same (by decide)

/-! ## Members -/

/-- A location is told by its datum, field for field. So is each part of a resolution below. -/
theorem Location.datum_injective : Injective Location.datum := by
  intro ⟨_, _, _, _, _, _⟩ ⟨_, _, _, _, _, _⟩ same
  simpa [datum, Datum.nat_inj] using same

theorem Diagnostic.datum_injective : Injective Diagnostic.datum := by
  intro ⟨_, _, _, _, _⟩ ⟨_, _, _, _, _⟩ same
  simpa [datum, Code.name_injective.eq_iff, Severity.name_injective.eq_iff,
    Location.datum_injective.eq_iff] using same

theorem Constraint.datum_injective : Injective Constraint.datum := by
  intro a b same
  -- Two constraints of different rules are told apart by the names of their rules.
  cases a <;> cases b <;> simp [datum, rule, bound?, Datum.nat_inj] at same ⊢ <;> exact same

theorem TypeName.datum_injective : Injective TypeName.datum := by
  intro a b same
  cases a <;> cases b <;> simp [datum, Scalar.name_injective.eq_iff] at same ⊢ <;> exact same

/-- A type name is always shown, so an absent one is told apart. -/
theorem TypeName.datum_ne_null (t : TypeName) : t.datum ≠ .null := by
  cases t <;> simp [datum]

theorem Member.datum_injective : Injective Member.datum := by
  intro ⟨_, _, _, _, _, _⟩ ⟨_, _, _, _, _, _⟩ same
  simpa [datum, Datum.optional_inj TypeName.datum_injective TypeName.datum_ne_null,
    Datum.each_inj Constraint.datum_injective, Location.datum_injective.eq_iff] using same

theorem Deprecation.datum_injective : Injective Deprecation.datum := by
  intro ⟨_, _, _⟩ ⟨_, _, _⟩ same
  simpa [datum, Datum.optional_text_inj, Location.datum_injective.eq_iff] using same

/-- Optional deprecations. -/
theorem Deprecation.optional_inj {a b : Option Deprecation} :
    Datum.optional datum a = Datum.optional datum b ↔ a = b :=
  Datum.optional_inj datum_injective (by simp [datum])

/-! ## Interfaces -/

theorem HttpMethod.datum_injective : Injective HttpMethod.datum := by
  intro ⟨_, _, _, _⟩ ⟨_, _, _, _⟩ same
  simpa [datum, Datum.nat_inj, HttpVerb.name_injective.eq_iff,
    Location.datum_injective.eq_iff] using same

theorem HttpPath.datum_injective : Injective HttpPath.datum := by
  intro ⟨_, _⟩ ⟨_, _⟩ same
  simpa [datum, Datum.each_inj HttpMethod.datum_injective] using same

theorem ReturnType.datum_injective : Injective ReturnType.datum := by
  intro ⟨_, _, _⟩ ⟨_, _, _⟩ same
  simpa [datum, Datum.each_inj Constraint.datum_injective, Location.datum_injective.eq_iff]
    using same

/-- Absent return types are told apart from those that are shown. -/
theorem ReturnType.optional_inj {a b : Option ReturnType} :
    Datum.optional datum a = Datum.optional datum b ↔ a = b :=
  Datum.optional_inj datum_injective (by simp [datum])

theorem Method.datum_injective : Injective Method.datum := by
  intro ⟨_, _, _, _, _⟩ ⟨_, _, _, _, _⟩ same
  simpa [datum, Deprecation.optional_inj, Datum.each_inj Member.datum_injective,
    ReturnType.optional_inj, Location.datum_injective.eq_iff] using same

theorem Interface.datum_injective : Injective Interface.datum := by
  intro ⟨_, _, _, _⟩ ⟨_, _, _, _⟩ same
  simpa [datum, Datum.each_inj HttpPath.datum_injective, Datum.each_inj Method.datum_injective,
    Location.datum_injective.eq_iff] using same

/-! ## Types and enumerations -/

theorem StructureType.datum_injective : Injective StructureType.datum := by
  intro ⟨_, _, _, _⟩ ⟨_, _, _, _⟩ same
  simpa [datum, Deprecation.optional_inj, Datum.each_inj Member.datum_injective,
    Location.datum_injective.eq_iff] using same

theorem EnumLiteral.datum_injective : Injective EnumLiteral.datum := by
  intro a b same
  cases a <;> cases b <;> simp [datum] at same ⊢ <;> exact same

theorem EnumLiteral.datum_ne_null (l : EnumLiteral) : l.datum ≠ .null := by
  cases l <;> simp [datum]

theorem EnumValue.datum_injective : Injective EnumValue.datum := by
  intro ⟨_, _, _, _⟩ ⟨_, _, _, _⟩ same
  simpa [datum, Datum.optional_inj EnumLiteral.datum_injective EnumLiteral.datum_ne_null,
    Deprecation.optional_inj, Location.datum_injective.eq_iff] using same

theorem EnumType.datum_injective : Injective EnumType.datum := by
  intro ⟨_, _, _, _, _⟩ ⟨_, _, _, _, _⟩ same
  simpa [datum, EnumKind.name_injective.eq_iff, Deprecation.optional_inj,
    Datum.each_inj EnumValue.datum_injective, Location.datum_injective.eq_iff] using same

/-! ## The whole -/

theorem ServiceModel.datum_injective : Injective ServiceModel.datum := by
  intro ⟨_, _, _, _, _, _, _⟩ ⟨_, _, _, _, _, _, _⟩ same
  simpa [datum, Datum.nat_inj, Datum.each_inj Interface.datum_injective,
    Datum.each_inj StructureType.datum_injective, Datum.each_inj EnumType.datum_injective]
    using same

theorem Resolution.datum_injective : Injective Resolution.datum := by
  intro ⟨_, _⟩ ⟨_, _⟩ same
  simpa [datum, ServiceModel.datum_injective.eq_iff, Datum.each_inj Diagnostic.datum_injective]
    using same

/-- A resolution is determined by the value that its data are read back as. -/
theorem Resolution.eq_of_value_datum_eq {r other : Resolution}
    (same : r.datum.value = other.datum.value) : r = other :=
  datum_injective (Datum.eq_of_value_eq r.datum other.datum same)

end ServiceIdl
