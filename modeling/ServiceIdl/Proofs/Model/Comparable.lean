import ServiceIdl.Proofs.Model.Placed
import ServiceIdl.Proofs.Render.Comparable

/-!
# Resolutions can be told apart

The data of two parts of the same kind have the same names at the same places, and what follows
a name is mostly of one kind. There are two exceptions: the bound of a constraint is an integer
unless it is a pattern, and the value of an enumeration is an integer or a text. Those integers
are integers of a document, so the data of two resolutions are comparable
(`Resolution.IsPlaced.comparable`).
-/

namespace ServiceIdl

open Datum (Comparable)

/-- Locations have the same keys with numbers and strings behind them. -/
theorem Location.comparable (l other : Location) : l.datum.Comparable other.datum :=
  .field rfl .nat (.field rfl .nat (.field rfl .nat (.field rfl .nat (.field rfl .nat
    (.field rfl .nat .done)))))

theorem Diagnostic.comparable (d other : Diagnostic) : d.datum.Comparable other.datum :=
  .field rfl .text (.field rfl .text (.field rfl .text (.field rfl .text
    (.field rfl (Location.comparable _ _) .done))))

/-! ## Members -/

/-- A bound of a constraint is an integer of the document, or a pattern. -/
theorem Constraint.isScalar_bound {c : Constraint} (fits : c.datum.Fits) {d : Datum}
    (bound : c.bound? = some d) : d.IsScalar := by
  have bounded : d.Fits := by
    rw [Constraint.datum, bound] at fits
    cases fits with
    | record fields => exact fields ("value", d) (by simp)
  cases c with
  | required => cases bound
  | uniqueItems => cases bound
  | pattern text =>
    cases bound
    exact .text
  | minLength n | maxLength n | atLeast n | atMost n =>
    cases bound
    cases bounded with
    | int fits => exact .int fits

/-- Two constraints have a kind and at most one bound behind it, whichever of them they are. -/
theorem Constraint.comparable {c other : Constraint} (fits : c.datum.Fits)
    (fits' : other.datum.Fits) : c.datum.Comparable other.datum := by
  refine .field rfl .text ?_
  cases bound : c.bound? with
  | none => exact .done
  | some d =>
    cases bound' : other.bound? with
    | none => exact .done_right
    | some e =>
      have scalar := isScalar_bound fits bound
      exact .field rfl (scalar.comparable (isScalar_bound fits' bound')) .done

/-- Type names have the same two keys with a text behind each. -/
theorem TypeName.comparable (t other : TypeName) : t.datum.Comparable other.datum := by
  cases t <;> cases other <;> exact .field rfl .text (.field rfl .text .done)

section

variable {place : Location → Prop}

/-- Members have the same keys, with a list of constraints behind one of them. -/
theorem Member.IsPlaced.comparable {m other : Member} (placed : m.IsPlaced place)
    (placed' : other.IsPlaced place) : m.datum.Comparable other.datum :=
  have typeName := Comparable.optional fun t _ u _ => TypeName.comparable t u
  have rules := Comparable.each fun c present d present' =>
    Constraint.comparable (placed.rules c present) (placed'.rules d present')
  .field rfl .text (.field rfl .bool (.field rfl .bool (.field rfl typeName (.field rfl rules
    (.field rfl (Location.comparable _ _) .done)))))

theorem Deprecation.comparable (d other : Deprecation) : d.datum.Comparable other.datum :=
  .field rfl (Location.comparable _ _) (.field rfl (.optional fun _ _ _ _ => .text)
    (.field rfl (.optional fun _ _ _ _ => .text) .done))

/-! ## Interfaces -/

theorem HttpMethod.comparable (m other : HttpMethod) : m.datum.Comparable other.datum :=
  .field rfl .text (.field rfl .nat (.field rfl .text
    (.field rfl (Location.comparable _ _) .done)))

theorem HttpPath.comparable (p other : HttpPath) : p.datum.Comparable other.datum :=
  have methods := Comparable.each fun m _ n _ => HttpMethod.comparable m n
  .field rfl .text (.field rfl methods .done)

theorem ReturnType.IsPlaced.comparable {t other : ReturnType} (placed : t.IsPlaced place)
    (placed' : other.IsPlaced place) : t.datum.Comparable other.datum :=
  have rules := Comparable.each fun c present d present' =>
    Constraint.comparable (placed.rules c present) (placed'.rules d present')
  .field rfl .text (.field rfl rules (.field rfl (Location.comparable _ _) .done))

/-- Methods are compared key by key, and their parameters one by one. -/
theorem Method.IsPlaced.comparable {m other : Method} (placed : m.IsPlaced place)
    (placed' : other.IsPlaced place) : m.datum.Comparable other.datum :=
  have deprecated := Comparable.optional fun d _ e _ => Deprecation.comparable d e
  have parameters := Comparable.each fun p present q present' =>
    (placed.parameters p present).comparable (placed'.parameters q present')
  have returnType := Comparable.optional fun t found u found' =>
    (placed.returnType t found).comparable (placed'.returnType u found')
  .field rfl .text (.field rfl deprecated (.field rfl parameters (.field rfl returnType
    (.field rfl (Location.comparable _ _) .done))))

theorem Interface.IsPlaced.comparable {code code' : Nat} {i other : Interface}
    (placed : i.IsPlaced place code) (placed' : other.IsPlaced place code') :
    i.datum.Comparable other.datum :=
  have paths := Comparable.each fun p _ q _ => HttpPath.comparable p q
  have methods := Comparable.each fun m present n present' =>
    (placed.methods m present).comparable (placed'.methods n present')
  .field rfl .text (.field rfl paths (.field rfl methods
    (.field rfl (Location.comparable _ _) .done)))

/-! ## Types and enumerations -/

theorem StructureType.IsPlaced.comparable {t other : StructureType} (placed : t.IsPlaced place)
    (placed' : other.IsPlaced place) : t.datum.Comparable other.datum :=
  have deprecated := Comparable.optional fun d _ e _ => Deprecation.comparable d e
  have properties := Comparable.each fun p present q present' =>
    (placed.properties p present).comparable (placed'.properties q present')
  .field rfl .text (.field rfl deprecated (.field rfl properties
    (.field rfl (Location.comparable _ _) .done)))

theorem EnumLiteral.isScalar_datum {l : EnumLiteral} (fits : l.datum.Fits) : l.datum.IsScalar := by
  cases l with
  | string => exact .text
  | integer =>
    cases fits with
    | int fits => exact .int fits

theorem EnumValue.IsPlaced.comparable {v other : EnumValue} (placed : v.IsPlaced place)
    (placed' : other.IsPlaced place) : v.datum.Comparable other.datum :=
  have value := Comparable.optional fun l found k found' =>
    (EnumLiteral.isScalar_datum (placed.value l found)).comparable
      (EnumLiteral.isScalar_datum (placed'.value k found'))
  have deprecated := Comparable.optional fun d _ e _ => Deprecation.comparable d e
  .field rfl .text (.field rfl value (.field rfl deprecated
    (.field rfl (Location.comparable _ _) .done)))

theorem EnumType.IsPlaced.comparable {e other : EnumType} (placed : e.IsPlaced place)
    (placed' : other.IsPlaced place) : e.datum.Comparable other.datum :=
  have deprecated := Comparable.optional fun d _ e _ => Deprecation.comparable d e
  have values := Comparable.each fun v present w present' =>
    (placed.values v present).comparable (placed'.values w present')
  .field rfl .text (.field rfl .text (.field rfl deprecated (.field rfl values
    (.field rfl (Location.comparable _ _) .done))))

/-! ## The whole -/

variable {options options' : Options}

/-- Two models of the same or of different options can be compared. -/
theorem ServiceModel.IsPlaced.comparable {m other : ServiceModel}
    (placed : m.IsPlaced place options) (placed' : other.IsPlaced place options') :
    m.datum.Comparable other.datum :=
  have interfaces := Comparable.each fun i present j present' =>
    (placed.interfaces i present).comparable (placed'.interfaces j present')
  have types := Comparable.each fun t present u present' =>
    (placed.types t present).comparable (placed'.types u present')
  have enums := Comparable.each fun e present f present' =>
    (placed.enums e present).comparable (placed'.enums f present')
  have unions := Comparable.each fun t present u present' =>
    (placed.unions t present).comparable (placed'.unions u present')
  .field rfl .text (.field rfl .text (.field rfl .nat (.field rfl interfaces
    (.field rfl types (.field rfl enums (.field rfl unions .done))))))

/-- The data of two resolutions are comparable, whatever their options are. -/
theorem Resolution.IsPlaced.comparable {r other : Resolution} (placed : r.IsPlaced place options)
    (placed' : other.IsPlaced place options') : r.datum.Comparable other.datum :=
  have diagnostics := Comparable.each fun d _ e _ => Diagnostic.comparable d e
  .field rfl (placed.model.comparable placed'.model) (.field rfl diagnostics .done)

end

end ServiceIdl
