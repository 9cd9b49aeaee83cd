import ClassDiagram.Output.Drawio
import ClassDiagram.Proofs.Text.Blank
import ClassDiagram.Proofs.Xml.RoundTrip
import Mathlib.Data.List.Basic

/-!
# What a draw.io document says

The cells of a document are read off its elements by the names of their attributes, as the editor
does it. A document says of a diagram exactly what the diagram holds: names, signatures and
identifiers come back as they are, and none of them can add a cell, take one away or change another.
-/

namespace ClassDiagram.Drawio

open Xml

/-! ## Cells -/

/-- A cell as the editor knows it. -/
inductive Cell
  /-- The page, or a layer of it. -/
  | layer (id : String) (parent : Option String)
  /-- A vertex. Its position is counted from that of its parent. -/
  | vertex (id value style parent : String) (x : Option Nat) (y width height : Nat)
  | edge (id value style parent source target : String) (sourcePoint targetPoint : Point)
deriving DecidableEq

/-- The number that is given by an attribute. -/
def number? (name : String) (attributes : List (String × String)) : Option Nat :=
  (attributes.lookup name).bind fun value => decimal? value.toList

/-- The point with a role. -/
def point? (role : String) : List Element → Option Point
  | [] => none
  | .node name attributes _ :: rest =>
    if name = "mxPoint" ∧ attributes.lookup "as" = some role then do
      return ⟨← number? "x" attributes, ← number? "y" attributes⟩
    else point? role rest

namespace Cell

/-- The vertex with some attributes and a geometry. -/
def vertex? (cell geometry : List (String × String)) : Option Cell := do
  return .vertex (← cell.lookup "id") (← cell.lookup "value") (← cell.lookup "style")
    (← cell.lookup "parent") (number? "x" geometry) (← number? "y" geometry)
    (← number? "width" geometry) (← number? "height" geometry)

/-- The edge with some attributes and the points of its geometry. -/
def edge? (cell : List (String × String)) (points : List Element) : Option Cell := do
  return .edge (← cell.lookup "id") (← cell.lookup "value") (← cell.lookup "style")
    (← cell.lookup "parent") (← cell.lookup "source") (← cell.lookup "target")
    (← point? "sourcePoint" points) (← point? "targetPoint" points)

/-- The cell that an element stands for. -/
def ofElement? : Element → Option Cell
  | .node name cell [] =>
    if name = "mxCell" then do return .layer (← cell.lookup "id") (cell.lookup "parent") else none
  | .node name cell [.node inner geometry points] =>
    if name = "mxCell" ∧ inner = "mxGeometry" then
      if cell.lookup "vertex" = some "1" then vertex? cell geometry
      else if cell.lookup "edge" = some "1" then edge? cell points
      else none
    else none
  | _ => none

/-- What is said of a row of a box. -/
def ofRow (box : Box) (row : Row) : Cell :=
  .vertex row.id row.text memberStyle box.id none row.y box.width row.height

/-- What is said of a box: of itself, of its attributes, of its separator and of its methods. All
but the first lies inside of it. -/
def ofBox (box : Box) : List Cell :=
  .vertex box.id box.name classStyle "1" (some box.x) box.y box.width box.height
    :: (box.rows.filter (·.kind = .attributes)).map (ofRow box)
    ++ box.separator.toList.map (fun separator =>
      .vertex separator.id "" separatorStyle box.id none separator.y box.width separator.height)
    ++ (box.rows.filter (·.kind = .methods)).map (ofRow box)

/-- What is said of an edge. -/
def ofEdge (edge : Edge) : Cell :=
  .edge edge.id "" (edgeStyle edge.kind) "1" edge.source edge.target edge.sourcePoint
    edge.targetPoint

/-- What is said of a diagram: it has a page with one layer, on which the boxes and edges lie. -/
def ofDiagram (diagram : Diagram) : List Cell :=
  .layer "0" none :: .layer "1" (some "0") :: diagram.boxes.flatMap ofBox
    ++ diagram.edges.map ofEdge

end Cell

/-- What stands around the cells of every document. -/
def envelope (pageWidth pageHeight : Nat) (cells : List Element) : Element :=
  .node "mxfile" [("host", "classmap"), ("version", "0.1.0")] [
    .node "diagram" [("name", "Page-1"), ("id", "class-diagram")] [
      .node "mxGraphModel" [("dx", "1422"), ("dy", "798"), ("grid", "1"), ("gridSize", "10"),
          ("guides", "1"), ("tooltips", "1"), ("connect", "1"), ("arrows", "1"), ("fold", "1"),
          ("page", "1"), ("pageScale", "1"), ("pageWidth", toString pageWidth),
          ("pageHeight", toString pageHeight), ("math", "0"), ("shadow", "0")] [
        .node "root" [] cells]]]

/-! ## Reading the cells -/

/-- A number that is written in digits is read back. -/
theorem decimal?_toDigits (n : Nat) : decimal? (Nat.toDigits 10 n) = some n := by
  rw [decimal?, if_pos, Nat.ofDigitChars_ten_toDigits]
  exact ⟨Nat.toDigits_ne_nil, List.all_eq_true.mpr fun _ => Text.isDigit_of_mem_toDigits⟩

theorem ofElement?_boxCell (box : Box) :
    Cell.ofElement? (boxCell box) =
      some (.vertex box.id box.name classStyle "1" (some box.x) box.y box.width box.height) := by
  simp [Cell.ofElement?, boxCell, Cell.vertex?, number?, List.lookup_cons, decimal?_toDigits]

theorem ofElement?_childCell (box : Box) (id value style : String) (y height : Nat) :
    Cell.ofElement? (childCell box id value style y height) =
      some (.vertex id value style box.id none y box.width height) := by
  simp [Cell.ofElement?, childCell, Cell.vertex?, number?, List.lookup_cons, decimal?_toDigits]

theorem ofElement?_edgeCell (edge : Edge) :
    Cell.ofElement? (edgeCell edge) = some (.ofEdge edge) := by
  simp [Cell.ofElement?, edgeCell, pointCell, Cell.edge?, Cell.ofEdge, point?, number?,
    List.lookup_cons, decimal?_toDigits]

theorem map_ofElement?_boxCells (box : Box) :
    (boxCells box).map Cell.ofElement? = (Cell.ofBox box).map some := by
  have hrows : ∀ rows : List Row,
      (rows.map (rowCell box)).map Cell.ofElement? = (rows.map (Cell.ofRow box)).map some := by
    intro rows
    rw [List.map_map, List.map_map]
    exact List.map_congr_left fun row _ => ofElement?_childCell ..
  have hseparator : (box.separator.toList.map (separatorCell box)).map Cell.ofElement? =
      (box.separator.toList.map fun separator => Cell.vertex separator.id "" separatorStyle box.id
        none separator.y box.width separator.height).map some := by
    rw [List.map_map, List.map_map]
    exact List.map_congr_left fun separator _ => ofElement?_childCell ..
  simp only [boxCells, Cell.ofBox, List.map_append, List.map_cons, ofElement?_boxCell, hrows,
    hseparator, Box.rowsOf]

theorem map_ofElement?_cells (diagram : Diagram) :
    (cells diagram).map Cell.ofElement? = (Cell.ofDiagram diagram).map some := by
  have hboxes : (diagram.boxes.flatMap boxCells).map Cell.ofElement? =
      (diagram.boxes.flatMap Cell.ofBox).map some := by
    rw [List.map_flatMap, List.map_flatMap]
    exact List.flatMap_congr fun box _ => map_ofElement?_boxCells box
  have hedges : (diagram.edges.map edgeCell).map Cell.ofElement? =
      (diagram.edges.map Cell.ofEdge).map some := by
    rw [List.map_map, List.map_map]
    exact List.map_congr_left fun edge _ => ofElement?_edgeCell edge
  have hlayers : Cell.ofElement? (.node "mxCell" [("id", "0")] []) = some (.layer "0" none) ∧
      Cell.ofElement? (.node "mxCell" [("id", "1"), ("parent", "0")] []) =
        some (.layer "1" (some "0")) := by
    constructor <;> simp [Cell.ofElement?, List.lookup_cons]
  simp only [cells, Cell.ofDiagram, List.map_append, List.map_cons, hlayers, hboxes, hedges]

/-! ## Reading a document -/

theorem wellFormed_leaf {name : String} {attributes : List (String × String)}
    (hname : isName name.toList = true) (hattributes : areNames (attributes.map (·.1)) = true) :
    (Element.node name attributes []).WellFormed :=
  .intro hname hattributes fun _ hchild => absurd hchild List.not_mem_nil

theorem wellFormed_parent {name : String} {attributes : List (String × String)} {child : Element}
    (hname : isName name.toList = true) (hattributes : areNames (attributes.map (·.1)) = true)
    (hchild : child.WellFormed) : (Element.node name attributes [child]).WellFormed := by
  refine .intro hname hattributes fun element helement => ?_
  rwa [List.mem_singleton.mp helement]

/-- The names of the attributes of vertices and edges, and of their geometries and points. -/
theorem areNames_attributes :
    areNames ["id", "value", "style", "vertex", "parent"] = true ∧
      areNames ["id", "value", "style", "edge", "parent", "source", "target"] = true ∧
      areNames ["x", "y", "width", "height", "as"] = true ∧
      areNames ["y", "width", "height", "as"] = true ∧
      areNames ["width", "relative", "as"] = true ∧ areNames ["x", "y", "as"] = true := by
  decide +kernel

theorem isName_elements :
    isName "mxCell".toList = true ∧ isName "mxGeometry".toList = true ∧
      isName "mxPoint".toList = true := by
  decide +kernel

theorem wellFormed_boxCell (box : Box) : (boxCell box).WellFormed := by
  obtain ⟨hvertex, _, hgeometry, _⟩ := areNames_attributes
  obtain ⟨hcell, hinner, _⟩ := isName_elements
  exact wellFormed_parent hcell hvertex (wellFormed_leaf hinner hgeometry)

theorem wellFormed_childCell (box : Box) (id value style : String) (y height : Nat) :
    (childCell box id value style y height).WellFormed := by
  obtain ⟨hvertex, _, _, hgeometry, _⟩ := areNames_attributes
  obtain ⟨hcell, hinner, _⟩ := isName_elements
  exact wellFormed_parent hcell hvertex (wellFormed_leaf hinner hgeometry)

theorem wellFormed_edgeCell (edge : Edge) : (edgeCell edge).WellFormed := by
  obtain ⟨_, hedge, _, _, hgeometry, hpoint⟩ := areNames_attributes
  obtain ⟨hcell, hinner, hpoints⟩ := isName_elements
  refine wellFormed_parent hcell hedge (.intro hinner hgeometry fun element helement => ?_)
  rcases List.mem_cons.mp helement with rfl | helement
  · exact wellFormed_leaf hpoints hpoint
  · rw [List.mem_singleton.mp helement]
    exact wellFormed_leaf hpoints hpoint

theorem wellFormed_boxCells {box : Box} {element : Element} (helement : element ∈ boxCells box) :
    element.WellFormed := by
  simp only [boxCells, List.cons_append, List.mem_cons, List.mem_append, List.mem_map]
    at helement
  rcases helement with rfl | (⟨row, _, rfl⟩ | ⟨separator, _, rfl⟩) | ⟨row, _, rfl⟩
  · exact wellFormed_boxCell box
  · exact wellFormed_childCell ..
  · exact wellFormed_childCell ..
  · exact wellFormed_childCell ..

theorem wellFormed_cells {diagram : Diagram} {element : Element}
    (helement : element ∈ cells diagram) : element.WellFormed := by
  simp only [cells, List.cons_append, List.mem_cons, List.mem_append, List.mem_flatMap,
    List.mem_map] at helement
  rcases helement with rfl | rfl | ⟨box, _, hbox⟩ | ⟨edge, _, rfl⟩
  · exact wellFormed_leaf isName_elements.1 (by decide +kernel)
  · exact wellFormed_leaf isName_elements.1 (by decide +kernel)
  · exact wellFormed_boxCells hbox
  · exact wellFormed_edgeCell edge

theorem root_eq_envelope (diagram : Diagram) :
    root diagram = envelope (max diagram.width 850) (max diagram.height 1100) (cells diagram) := rfl

theorem wellFormed_envelope (pageWidth pageHeight : Nat) {elements : List Element}
    (helements : ∀ element ∈ elements, element.WellFormed) :
    (envelope pageWidth pageHeight elements).WellFormed := by
  have hroot : (Element.node "root" [] elements).WellFormed :=
    .intro (by decide +kernel) (by decide +kernel) helements
  have hattributes : areNames ["dx", "dy", "grid", "gridSize", "guides", "tooltips", "connect",
      "arrows", "fold", "page", "pageScale", "pageWidth", "pageHeight", "math",
      "shadow"] = true := by
    decide +kernel
  refine wellFormed_parent (by decide +kernel) (by decide +kernel) ?_
  refine wellFormed_parent (by decide +kernel) (by decide +kernel) ?_
  exact wellFormed_parent (by decide +kernel) hattributes hroot

theorem wellFormed_root (diagram : Diagram) : (root diagram).WellFormed := by
  rw [root_eq_envelope]
  exact wellFormed_envelope _ _ fun _ helement => wellFormed_cells helement

/-- Reading the document of a diagram gives the fixed envelope and in it the cells of the diagram,
in order: the two layers; for each box its swimlane, and inside of it the attribute rows, the
separator and the method rows; and the edges. Every name, text, identifier and number is that of
the diagram, whatever characters it has. -/
theorem read_render (diagram : Diagram) :
    Xml.read (render diagram).toList =
        some (envelope (max diagram.width 850) (max diagram.height 1100) (cells diagram)) ∧
      (cells diagram).map Cell.ofElement? = (Cell.ofDiagram diagram).map some := by
  refine ⟨?_, map_ofElement?_cells diagram⟩
  rw [render, String.toList_ofList, read_document _ (wellFormed_root diagram), root_eq_envelope]

end ClassDiagram.Drawio
