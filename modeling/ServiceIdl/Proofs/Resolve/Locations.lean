import ServiceIdl.Proofs.Resolve.Placed
import ServiceIdl.Proofs.Text.Scan

/-!
# Locations and integers of a resolution

Every text is resolved, and all locations in what comes of it are exact: offsets between
characters in their order, with the lines and columns that a scan of the text finds there
(`resolve_locations_exact`). All integers in a resolution have 64 signed bits, if its text is
not longer than such an integer counts (`fits_datum_of_resolve`): the bounds of constraints
and the values of enumerations are integers of the document that were not read as floats,
codes and versions have fewer bits yet, and every place lies within the text.
-/

namespace ServiceIdl

open Text (byteLength)

/-- Everything in a resolution, and every diagnostic, is located where it stands in the text,
whether the text is accepted or not. -/
theorem resolve_locations_exact (text path : String) (options : Options) :
    ∃ resolution, resolve text path options = .ok resolution ∧
      ∀ location ∈ resolution.locations, location.IsExact text.toList := by
  have located : (LineIndex.ofText text).Locates text.toList (Location.IsExact text.toList) := by
    rintro span ⟨part, holds⟩
    exact LineIndex.isExact_locate holds
  obtain ⟨resolution, resolved, placed⟩ := exists_isPlaced_resolution located path options
  exact ⟨resolution, resolved, placed.forall_locations⟩

/-- All integers in a resolution have 64 signed bits. -/
theorem fits_datum_of_resolve {text path : String} {options : Options} {resolution : Resolution}
    (resolved : resolve text path options = .ok resolution)
    (short : byteLength text.toList < 0x7FFFFFFFFFFFFFFF) (fits : options.Fits) :
    resolution.datum.Fits := by
  have located : (LineIndex.ofText text).Locates text.toList Location.Fits :=
    fun _ isOf => LineIndex.fits_locate short isOf.le
  obtain ⟨same, found, placed⟩ := exists_isPlaced_resolution located path options
  rw [resolved] at found
  cases found
  exact placed.fits fits

end ServiceIdl
