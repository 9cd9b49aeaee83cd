import ClassDiagram.Batch
import ClassDiagram.Json.Record
import ClassDiagram.Layout.Settings

/-!
# Settings in JSON

The JSON forms of the settings of layouts and of batches. Reading checks the form only; whether
the settings can be used is a question for their `validate`.
-/

namespace ClassDiagram

namespace LayoutSettings

/-- The JSON form of layout settings. -/
def toJson (settings : LayoutSettings) : Json := .object [
  ("margin", .natural settings.margin),
  ("columns", .natural settings.columns),
  ("column_width", .natural settings.columnWidth),
  ("row_height", .natural settings.rowHeight),
  ("box_width", .natural settings.boxWidth),
  ("header_height", .natural settings.headerHeight),
  ("member_height", .natural settings.memberHeight),
  ("separator_height", .natural settings.separatorHeight)]

/-- Reads layout settings. -/
def ofJson? (json : Json) : Option LayoutSettings := do
  match ← json.record? ["margin", "columns", "column_width", "row_height", "box_width",
      "header_height", "member_height", "separator_height"] 0 with
  | [margin, columns, columnWidth, rowHeight, boxWidth, headerHeight, memberHeight,
      separatorHeight] =>
    some ⟨← (← margin).size?, ← (← columns).size?, ← (← columnWidth).size?, ← (← rowHeight).size?,
      ← (← boxWidth).size?, ← (← headerHeight).size?, ← (← memberHeight).size?,
      ← (← separatorHeight).size?⟩
  | _ => none

end LayoutSettings

/-- Reads an extraction mode. -/
def ExtractionMode.ofJson? (json : Json) : Option ExtractionMode :=
  json.choice? ExtractionMode.all ExtractionMode.name

namespace BatchSettings

/-- The JSON form of batch settings. -/
def toJson (settings : BatchSettings) : Json := .object [
  ("mode", .string settings.mode.name),
  ("max_source_bytes", .natural settings.maxSourceBytes)]

/-- Reads batch settings. -/
def ofJson? (json : Json) : Option BatchSettings := do
  match ← json.record? ["mode", "max_source_bytes"] 0 with
  | [mode, maxSourceBytes] =>
    some ⟨← ExtractionMode.ofJson? (← mode), ← (← maxSourceBytes).nat?⟩
  | _ => none

end BatchSettings

end ClassDiagram
