import ServiceIdl.Proofs.Model.Comparable
import ServiceIdl.Proofs.Render.Faithful
import ServiceIdl.Proofs.Render.Yaml.Block
import ServiceIdl.Proofs.Resolve.Placed
import ServiceIdl.Render.Format

/-!
# Resolutions are told apart by their YAML

The data of any two resolutions are comparable, so two resolutions with the same YAML are the
same. A text stands apart from everything else that it could be taken for: from other texts, from
what is no text, and from what follows in the block that it stands in (`StandsApart`).
-/

namespace ServiceIdl

namespace Yaml

open Datum (Comparable)

/-! ## Texts among other data -/

/-- The line begins no part of the block around it: it is empty or stands further inside. -/
def Row.IsInside (row : Row) : Prop := row.chars = [] ∨ [' ', ' '] <+: row.chars

/-- An indented line stands further inside, unless it is empty. -/
theorem Row.isInside_indent (row : Row) : row.indent.IsInside := by
  unfold indent
  split
  · rename_i empty
    exact .inl (List.isEmpty_iff.mp empty)
  · exact .inr (List.prefix_append _ _)

/-- Behind its first line a hanging block is indented. -/
theorem isInside_of_mem_tail_hang {mark : List Char} {rows : List Row} :
    ∀ row ∈ (hang mark rows).tail, row.IsInside := by
  cases rows with
  | nil => exact List.forall_mem_nil _
  | cons first others => exact List.forall_mem_map.mpr fun row _ => row.isInside_indent

/-- The text is written like nothing else. Its first line tells that it is a text, and as a part
of a block it does not go on as another part of it. -/
structure StandsApart (s : String) : Prop where
  other : ∀ t, text (.text s) = text (.text t) → s = t
  null : text (.text s) ≠ text .null
  bool : ∀ b, text (.text s) ≠ text (.bool b)
  int : ∀ n, Decimal.IsSigned64 n → text (.text s) ≠ text (.int n)
  list : ∀ items, Comparable (.list items) (.list items) → text (.text s) ≠ text (.list items)
  record : ∀ fields, Comparable (.record fields) (.record fields) →
    text (.text s) ≠ text (.record fields)
  first : ∃ first others, write (.text s) = first :: others ∧ kindOf first.chars = .text
  field : ∀ name, ∀ row ∈ (fieldRows name (.text s) (write (.text s))).tail, row.IsInside
  item : ∀ row ∈ (hang ['-', ' '] (write (.text s))).tail, row.IsInside

/-- Every text stands apart, the ones included that look like other data. -/
theorem standsApart (s : String) : StandsApart s where
  other t same := by
    have texts : Datum.text s = .text t := eq_of_text_eq .text .text .text same
    exact Datum.text.inj texts
  null same := by
    cases eq_of_text_eq .text (.null_left _) (.null_right _) same
  bool b same := by
    cases eq_of_text_eq .text .bool trivial same
  int n fits same := by
    cases eq_of_text_eq .text .int fits same
  list items words same := by
    cases eq_of_text_eq .text words trivial same
  record fields words same := by
    cases eq_of_text_eq .text words trivial same
  first := kindOf_textRows s.toList
  field _ := isInside_of_mem_tail_hang
  item := isInside_of_mem_tail_hang

example : text (.record [("path", .text "null"), ("title", .text "a\nname: b")]) =
    "path: \x27null\x27\ntitle: |-\n  a\n  name: b\n" := by
  decide +kernel

end Yaml

/-! ## Resolutions -/

/-- Two resolutions with the same YAML are the same, whatever their options are. -/
theorem Resolution.IsPlaced.eq_of_render_eq {place : Location → Prop} {options options' : Options}
    {r other : Resolution} (placed : r.IsPlaced place options)
    (placed' : other.IsPlaced place options')
    (same : Format.yaml.render r = Format.yaml.render other) : r = other :=
  Resolution.datum_injective (Yaml.eq_of_text_eq (placed.comparable placed)
    (placed'.comparable placed') (placed.comparable placed') same)

/-- Any two texts have resolutions, and these are written as the same YAML only if they are the
same. No text in them is written like another text, like what is no text, or like more of the
block that it stands in. -/
theorem resolve_render_yaml_inj (text path : String) (options : Options) (text' path' : String)
    (options' : Options) :
    (∃ r r', resolve text path options = .ok r ∧ resolve text' path' options' = .ok r' ∧
      (Format.yaml.render r = Format.yaml.render r' ↔ r = r')) ∧ ∀ s, Yaml.StandsApart s := by
  refine ⟨?_, Yaml.standsApart⟩
  have located (text : String) :
      (LineIndex.ofText text).Locates text.toList fun _ => True := fun _ _ => trivial
  obtain ⟨r, resolved, placed⟩ := exists_isPlaced_resolution (located text) path options
  obtain ⟨r', resolved', placed'⟩ := exists_isPlaced_resolution (located text') path' options'
  exact ⟨r, r', resolved, resolved', placed.eq_of_render_eq placed', congrArg _⟩

end ServiceIdl
