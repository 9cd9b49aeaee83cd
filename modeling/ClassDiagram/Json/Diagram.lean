import ClassDiagram.Json.Model
import ClassDiagram.Layout.Diagram

/-!
# Diagrams in JSON

The JSON form of diagrams, for surfaces that draw them by themselves.
-/

namespace ClassDiagram

namespace Point

/-- The JSON form of a point. -/
def toJson (point : Point) : Json := .object [("x", .natural point.x), ("y", .natural point.y)]

/-- Reads a point. -/
def ofJson? (json : Json) : Option Point := do
  match ← json.record? ["x", "y"] 0 with
  | [x, y] => some ⟨← (← x).nat?, ← (← y).nat?⟩
  | _ => none

end Point

namespace Row

/-- The JSON form of a row. -/
def toJson (row : Row) : Json := .object [
  ("id", .string row.id),
  ("kind", .string row.kind.name),
  ("visibility", .string row.visibility.name),
  ("text", .string row.text),
  ("y", .natural row.y),
  ("height", .natural row.height)]

/-- Reads a row. -/
def ofJson? (json : Json) : Option Row := do
  match ← json.record? ["id", "kind", "visibility", "text", "y", "height"] 0 with
  | [id, kind, visibility, text, y, height] =>
    some ⟨← (← id).text?, ← (← kind).choice? RowKind.all RowKind.name,
      ← (← visibility).choice? Visibility.all Visibility.name, ← (← text).text?, ← (← y).nat?,
      ← (← height).nat?⟩
  | _ => none

end Row

namespace Separator

/-- The JSON form of a separator. -/
def toJson (separator : Separator) : Json := .object [
  ("id", .string separator.id),
  ("y", .natural separator.y),
  ("height", .natural separator.height)]

/-- Reads a separator. -/
def ofJson? (json : Json) : Option Separator := do
  match ← json.record? ["id", "y", "height"] 0 with
  | [id, y, height] => some ⟨← (← id).text?, ← (← y).nat?, ← (← height).nat?⟩
  | _ => none

end Separator

namespace Box

/-- The JSON form of a box. -/
def toJson (box : Box) : Json := .object [
  ("id", .string box.id),
  ("name", .string box.name),
  ("x", .natural box.x),
  ("y", .natural box.y),
  ("width", .natural box.width),
  ("height", .natural box.height),
  ("header_height", .natural box.headerHeight),
  ("rows", .array (box.rows.map Row.toJson)),
  ("separator", Json.ofOption Separator.toJson box.separator)]

/-- Reads a box. An object without a separator field stands for a box without a separator. -/
def ofJson? (json : Json) : Option Box := do
  match ← json.record? ["id", "name", "x", "y", "width", "height", "header_height", "rows",
      "separator"] 0 with
  | [id, name, x, y, width, height, headerHeight, rows, separator] =>
    some ⟨← (← id).text?, ← (← name).text?, ← (← x).nat?, ← (← y).nat?, ← (← width).nat?,
      ← (← height).nat?, ← (← headerHeight).nat?, ← (← rows).list? Row.ofJson?,
      ← Json.nullable? Separator.ofJson? separator⟩
  | _ => none

end Box

namespace Edge

/-- The JSON form of an edge. -/
def toJson (edge : Edge) : Json := .object [
  ("id", .string edge.id),
  ("source", .string edge.source),
  ("target", .string edge.target),
  ("from", .string edge.sourceName),
  ("to", .string edge.targetName),
  ("kind", .string edge.kind.name),
  ("from_point", edge.sourcePoint.toJson),
  ("to_point", edge.targetPoint.toJson),
  ("arrow", .string edge.arrow.name)]

/-- Reads an edge. -/
def ofJson? (json : Json) : Option Edge := do
  match ← json.record? ["id", "source", "target", "from", "to", "kind", "from_point", "to_point",
      "arrow"] 0 with
  | [id, source, target, sourceName, targetName, kind, sourcePoint, targetPoint, arrow] =>
    some ⟨← (← id).text?, ← (← source).text?, ← (← target).text?, ← (← sourceName).text?,
      ← (← targetName).text?, ← RelationshipKind.ofJson? (← kind),
      ← Point.ofJson? (← sourcePoint), ← Point.ofJson? (← targetPoint),
      ← (← arrow).choice? Arrow.all Arrow.name⟩
  | _ => none

end Edge

namespace Diagram

/-- The JSON form of a diagram. -/
def toJson (diagram : Diagram) : Json := .object [
  ("classes", .array (diagram.boxes.map Box.toJson)),
  ("edges", .array (diagram.edges.map Edge.toJson)),
  ("width", .natural diagram.width),
  ("height", .natural diagram.height)]

/-- Reads a diagram. -/
def ofJson? (json : Json) : Option Diagram := do
  match ← json.record? ["classes", "edges", "width", "height"] 0 with
  | [boxes, edges, width, height] =>
    some ⟨← (← boxes).list? Box.ofJson?, ← (← edges).list? Edge.ofJson?, ← (← width).nat?,
      ← (← height).nat?⟩
  | _ => none

end Diagram

end ClassDiagram
