import ServiceIdl.Render.Fields
import ServiceIdl.Render.Json
import ServiceIdl.Render.Yaml.Block

/-!
# Formats

The formats that a resolution can be written in, with what a caller needs to know
to store or send the text.
-/

namespace ServiceIdl

/-- A format for resolutions. -/
inductive Format where
  | json (layout : Json.Layout)
  | yaml
deriving DecidableEq, Repr

namespace Format

/-- The format as messages call it. -/
def name : Format → String
  | .json _ => "JSON"
  | .yaml => "YAML"

/-- The endings of the names of files in this format. -/
def extensions : Format → List String
  | .json _ => ["json"]
  | .yaml => ["yaml", "yml"]

/-- The media type of what is rendered. -/
def mimeType : Format → String
  | .json _ => "application/json"
  | .yaml => "application/x-yaml"

/-- The text of a datum in a format. -/
def text : Format → Datum → String
  | .json layout, d => Json.text layout d
  | .yaml, d => Yaml.text d

/-- The text of a resolution in a format. -/
def render (format : Format) (r : Resolution) : String := format.text r.datum

end Format

end ServiceIdl
