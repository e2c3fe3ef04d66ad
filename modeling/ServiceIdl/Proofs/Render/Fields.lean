import ServiceIdl.Proofs.Render.Value
import ServiceIdl.Proofs.Text.Lines
import ServiceIdl.Render.Fields

/-!
# Integers in the data of a resolution

The data of a resolution is put together from records. Each record fits if the parts of
it fit that hold integers: its locations, and the bounds and codes that come from the
document.
-/

namespace ServiceIdl

open Text (byteLength)

/-- A place in a text that fits into memory has numbers of 64 signed bits. -/
theorem LineIndex.fits_locate {text : String} {span : Span}
    (short : byteLength text.toList < 0x7FFFFFFFFFFFFFFF)
    (within : span.IsWithin (byteLength text.toList)) :
    ((LineIndex.ofText text).locate span).datum.Fits := by
  rcases within with ⟨start, stop⟩
  have startLine := line_le text span.start
  have startCol := col_le text span.start
  have stopLine := line_le text span.stop
  have stopCol := col_le text span.stop
  refine .field (.nat ?_) (.field (.nat ?_) (.field (.nat ?_) (.field (.nat ?_)
    (.field (.nat ?_) (.field (.nat ?_) .done)))))
  · change ((ofText text).lineCol span.start).line + 1 < _
    omega
  · change ((ofText text).lineCol span.start).col + 1 < _
    omega
  · change span.start < _
    omega
  · change ((ofText text).lineCol span.stop).line + 1 < _
    omega
  · change ((ofText text).lineCol span.stop).col + 1 < _
    omega
  · change span.stop < _
    omega

theorem Diagnostic.fits_datum {d : Diagnostic} (location : d.location.datum.Fits) :
    d.datum.Fits :=
  .field .text (.field .text (.field .text (.field .text (.field location .done))))

/-! ## Members -/

theorem Constraint.fits_datum {c : Constraint} (bound : ∀ d, c.bound? = some d → d.Fits) :
    c.datum.Fits := by
  unfold Constraint.datum
  cases found : c.bound? with
  | none => exact .field .text .done
  | some d => exact .field .text (.field (bound d found) .done)

theorem TypeName.fits_datum (t : TypeName) : t.datum.Fits := by
  cases t with
  | scalar => exact .field .text (.field .text .done)
  | shape => exact .field .text (.field .text .done)

/-- In a member only the bounds and the place are integers. -/
theorem Member.fits_datum {m : Member} (rules : ∀ c ∈ m.rules, c.datum.Fits)
    (location : m.location.datum.Fits) : m.datum.Fits :=
  have typeName := Datum.Fits.optional fun t _ => TypeName.fits_datum t
  .field .text (.field .bool (.field .bool (.field typeName (.field (.each rules)
    (.field location .done)))))

theorem Deprecation.fits_datum {d : Deprecation} (location : d.location.datum.Fits) :
    d.datum.Fits :=
  .field location (.field (.optional fun _ _ => .text) (.field (.optional fun _ _ => .text) .done))

/-! ## Interfaces -/

/-- In an HTTP method only the code and the place are. -/
theorem HttpMethod.fits_datum {m : HttpMethod} (code : m.successCode < 0x10000)
    (location : m.location.datum.Fits) : m.datum.Fits :=
  .field .text (.field (.nat (by omega)) (.field .text (.field location .done)))

theorem HttpPath.fits_datum {p : HttpPath} (methods : ∀ m ∈ p.methods, m.datum.Fits) :
    p.datum.Fits :=
  .field .text (.field (.each methods) .done)

theorem ReturnType.fits_datum {t : ReturnType} (rules : ∀ c ∈ t.rules, c.datum.Fits)
    (location : t.location.datum.Fits) : t.datum.Fits :=
  .field .text (.field (.each rules) (.field location .done))

theorem Method.fits_datum {m : Method} (deprecated : ∀ d, m.deprecated = some d → d.datum.Fits)
    (parameters : ∀ p ∈ m.parameters, p.datum.Fits)
    (returnType : ∀ t, m.returnType = some t → t.datum.Fits) (location : m.location.datum.Fits) :
    m.datum.Fits :=
  .field .text (.field (.optional deprecated) (.field (.each parameters)
    (.field (.optional returnType) (.field location .done))))

theorem Interface.fits_datum {i : Interface} (paths : ∀ p ∈ i.httpPaths, p.datum.Fits)
    (methods : ∀ m ∈ i.methods, m.datum.Fits) (location : i.location.datum.Fits) : i.datum.Fits :=
  .field .text (.field (.each paths) (.field (.each methods) (.field location .done)))

/-! ## Types and enumerations -/

theorem StructureType.fits_datum {t : StructureType}
    (deprecated : ∀ d, t.deprecated = some d → d.datum.Fits)
    (properties : ∀ p ∈ t.properties, p.datum.Fits) (location : t.location.datum.Fits) :
    t.datum.Fits :=
  .field .text (.field (.optional deprecated) (.field (.each properties) (.field location .done)))

theorem EnumValue.fits_datum {v : EnumValue} (value : ∀ l, v.value = some l → l.datum.Fits)
    (deprecated : ∀ d, v.deprecated = some d → d.datum.Fits) (location : v.location.datum.Fits) :
    v.datum.Fits :=
  .field .text (.field (.optional value) (.field (.optional deprecated) (.field location .done)))

theorem EnumType.fits_datum {e : EnumType}
    (deprecated : ∀ d, e.deprecated = some d → d.datum.Fits)
    (values : ∀ v ∈ e.values, v.datum.Fits) (location : e.location.datum.Fits) : e.datum.Fits :=
  .field .text (.field .text (.field (.optional deprecated) (.field (.each values)
    (.field location .done))))

/-! ## The whole -/

/-- A model fits when its version does and everything in its lists. -/
theorem ServiceModel.fits_datum {m : ServiceModel} (version : m.majorVersion < 0x100000000)
    (interfaces : ∀ i ∈ m.interfaces, i.datum.Fits) (types : ∀ t ∈ m.types, t.datum.Fits)
    (enums : ∀ e ∈ m.enums, e.datum.Fits) (unions : ∀ t ∈ m.unions, t.datum.Fits) :
    m.datum.Fits :=
  .field .text (.field .text (.field (.nat (by omega)) (.field (.each interfaces)
    (.field (.each types) (.field (.each enums) (.field (.each unions) .done))))))

/-- A resolution fits when its model and all its diagnostics do. -/
theorem Resolution.fits_datum {r : Resolution} (model : r.model.datum.Fits)
    (diagnostics : ∀ d ∈ r.diagnostics, d.datum.Fits) : r.datum.Fits :=
  .field model (.field (.each diagnostics) .done)

end ServiceIdl
