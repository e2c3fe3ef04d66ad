import ServiceIdl.Proofs.Render.Faithful
import ServiceIdl.Proofs.Render.Metadata
import ServiceIdl.Proofs.Resolve.Locations
import ServiceIdl.Render.Format

/-!
# The JSON of a resolution is read back

JSON is a part of the language: what a resolution is written as can stand as the value of
a metadata statement, and is read as the same tree of records, lists, texts, integers and
truth values (`metadata_of_render`). No other resolution has this tree, so nothing is lost
in the text, whatever stands in the titles, paths, patterns and messages of the resolution.
-/

namespace ServiceIdl

open Text (byteLength)

/-- The JSON of a resolution in either layout is accepted as the value of a metadata
statement, and read back as the value of the data of the resolution, which no other
resolution has. Lengths and options only have to be such that their integers have 64 signed
bits. -/
theorem metadata_of_render {text path : String} {options : Options} {resolution : Resolution}
    (resolved : resolve text path options = .ok resolution)
    (short : byteLength text.toList < 0x7FFFFFFFFFFFFFFF) (fits : options.Fits)
    (layout : Json.Layout) :
    (∃ tree idl,
      documentTree ("metadata m = " ++ (Format.json layout).render resolution) = .ok (.ok tree) ∧
      Idl.ofTree tree = .ok idl ∧ Idl.metadata idl = .ok [("m", resolution.datum.value)]) ∧
    ∀ other : Resolution, other.datum.value = resolution.datum.value → other = resolution := by
  have integers : resolution.datum.Fits := fits_datum_of_resolve resolved short fits
  refine ⟨exists_document_of_fits layout integers, ?_⟩
  intro other same
  exact Resolution.eq_of_value_datum_eq same

/-- A structure with a pattern that has quotes and backslashes, and a bound that is
negative. -/
def quotedPattern : String :=
  "namespace a structure S \x7b @pattern(\"^\\\\d\\\"$\") @range(min: -3) x: Integer \x7d"

/-- A pattern with a quote and a backslash and a negative bound, from a path that has both too:
the indented JSON is read back as the values of the resolution, and no other resolution has it. -/
theorem metadata_of_render_quotedPattern :
    ∃ resolution,
      resolve quotedPattern "b\\\"c" {} = .ok resolution ∧
      resolution.model.types.flatMap (fun type => type.properties.map Member.rules) =
        [[.pattern "^\\\\d\\\"$", .atLeast (-3)]] ∧
      (∃ tree idl,
        documentTree ("metadata m = " ++ (Format.json .indented).render resolution) =
          .ok (.ok tree) ∧
        Idl.ofTree tree = .ok idl ∧ Idl.metadata idl = .ok [("m", resolution.datum.value)]) ∧
      ∀ other : Resolution, other.datum.value = resolution.datum.value → other = resolution := by
  have computed : ((resolve quotedPattern "b\\\"c" {}).toOption.map fun resolution =>
      resolution.model.types.flatMap fun type => type.properties.map Member.rules) =
        some [[.pattern "^\\\\d\\\"$", .atLeast (-3)]] := by
    decide +kernel
  obtain ⟨resolution, success, rules⟩ := Option.map_eq_some_iff.mp computed
  have resolved := Outcome.eq_ok_of_toOption success
  have short : byteLength quotedPattern.toList < 0x7FFFFFFFFFFFFFFF := by decide +kernel
  have fits : Options.Fits {} := ⟨by decide, by decide⟩
  exact ⟨resolution, resolved, rules, metadata_of_render resolved short fits .indented⟩

end ServiceIdl
