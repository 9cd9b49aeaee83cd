import ClassDiagram.Json.Diagram
import ClassDiagram.Json.Printer
import ClassDiagram.Layout.Grid
import ClassDiagram.Output.Drawio
import ClassDiagram.Output.Summary
import ClassDiagram.Text.Blank

/-!
# Output formats

The formats in which a diagram can be written.
-/

namespace ClassDiagram

/-- A format of output. -/
inductive OutputFormat
  | drawio
  | json
  | summary
deriving DecidableEq

namespace OutputFormat

/-- The name under which a format is written and read. -/
def name : OutputFormat → String
  | drawio => "drawio"
  | json => "json"
  | summary => "summary"

/-- Every format, in the order of listings. -/
def all : List OutputFormat := [drawio, json, summary]

/-- The format used where none is chosen. -/
def default : OutputFormat := drawio

/-- What a listing says about a format. -/
def description : OutputFormat → String
  | drawio => "draw.io diagram document (XML)"
  | json => "layout payload with box and edge geometry (JSON)"
  | summary => "relationship list (text)"

/-- The extension of files in a format. -/
def extension : OutputFormat → String
  | drawio => "drawio"
  | json => "json"
  | summary => "txt"

/-- Reads the name of a format, in any case and with white space around it. -/
def parse (text : String) : Except Failure OutputFormat :=
  match Text.choice text with
  | "drawio" | "xml" => .ok drawio
  | "json" | "payload" => .ok json
  | "summary" | "text" | "txt" => .ok summary
  | other => .error (.unknownFormat other)

/-- The text of a diagram in a format. The style concerns JSON only. -/
def render (format : OutputFormat) (style : Json.Style) (diagram : Diagram) : String :=
  match format with
  | drawio => Drawio.render diagram
  | json => diagram.toJson.render style
  | summary => Summary.render diagram

end OutputFormat

/-- Lays out a model and writes it. -/
def generate (settings : LayoutSettings) (format : OutputFormat) (style : Json.Style)
    (model : Model) : Except Failure String := do
  return format.render style (← layout settings model)

end ClassDiagram
