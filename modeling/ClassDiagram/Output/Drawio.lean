import ClassDiagram.Layout.Diagram
import ClassDiagram.Output.Xml

/-!
# draw.io documents

A diagram as an uncompressed document of the draw.io editor. Each class is a swimlane whose rows
are cells inside it; coordinates inside a swimlane are relative to it. Each relationship is an edge
between two swimlanes.
-/

namespace ClassDiagram.Drawio

open Xml

/-- The style of a swimlane. -/
def classStyle : String :=
  "swimlane;fontStyle=1;align=center;verticalAlign=top;childLayout=stackLayout;horizontal=1;"
    ++ "startSize=26;horizontalStack=0;resizeParent=1;resizeParentMax=0;resizeLast=0;collapsible=1;"
    ++ "marginBottom=0;"

/-- The style of a member row. -/
def memberStyle : String :=
  "text;strokeColor=none;fillColor=none;align=left;verticalAlign=top;spacingLeft=4;"
    ++ "spacingRight=4;overflow=hidden;rotatable=0;points=[[0,0.5],[1,0.5]];"
    ++ "portConstraint=eastwest;"

/-- The style of a separator. -/
def separatorStyle : String :=
  "line;strokeWidth=1;fillColor=none;align=left;verticalAlign=middle;spacingTop=-1;"
    ++ "spacingLeft=3;spacingRight=3;rotatable=0;labelPosition=right;points=[];"
    ++ "portConstraint=eastwest;strokeColor=inherit;"

/-- The style of an edge of a kind. -/
def edgeStyle : RelationshipKind → String
  | .inheritance => "endArrow=block;endFill=0;endSize=12;html=1;rounded=0;"
  | .implementation => "endArrow=block;endFill=0;endSize=12;dashed=1;html=1;rounded=0;"
  | .association => "endArrow=open;endFill=0;endSize=12;html=1;rounded=0;"
  | .composition =>
    "startArrow=diamondThin;startFill=1;startSize=14;endArrow=none;html=1;rounded=0;"
  | .aggregation =>
    "startArrow=diamondThin;startFill=0;startSize=14;endArrow=none;html=1;rounded=0;"

/-- The smallest width of a page. -/
def pageWidth : Nat := 850

/-- The smallest height of a page. -/
def pageHeight : Nat := 1100

/-- A cell inside the swimlane of a box. -/
def childCell (box : Box) (id value style : String) (y height : Nat) : Element :=
  .node "mxCell" [("id", id), ("value", value), ("style", style), ("vertex", "1"),
      ("parent", box.id)] [
    .node "mxGeometry" [("y", toString y), ("width", toString box.width),
      ("height", toString height), ("as", "geometry")] []]

/-- The cell of a row. -/
def rowCell (box : Box) (row : Row) : Element :=
  childCell box row.id row.text memberStyle row.y row.height

/-- The cell of a separator. -/
def separatorCell (box : Box) (separator : Separator) : Element :=
  childCell box separator.id "" separatorStyle separator.y separator.height

/-- The swimlane of a box. -/
def boxCell (box : Box) : Element :=
  .node "mxCell" [("id", box.id), ("value", box.name), ("style", classStyle), ("vertex", "1"),
      ("parent", "1")] [
    .node "mxGeometry" [("x", toString box.x), ("y", toString box.y),
      ("width", toString box.width), ("height", toString box.height), ("as", "geometry")] []]

/-- The cells of a box: its swimlane, its attributes, its separator and its methods. -/
def boxCells (box : Box) : List Element :=
  boxCell box :: (box.rowsOf .attributes).map (rowCell box)
    ++ box.separator.toList.map (separatorCell box) ++ (box.rowsOf .methods).map (rowCell box)

/-- An end of an edge. -/
def pointCell (point : Point) (role : String) : Element :=
  .node "mxPoint" [("x", toString point.x), ("y", toString point.y), ("as", role)] []

/-- The cell of an edge. -/
def edgeCell (edge : Edge) : Element :=
  .node "mxCell" [("id", edge.id), ("value", ""), ("style", edgeStyle edge.kind), ("edge", "1"),
      ("parent", "1"), ("source", edge.source), ("target", edge.target)] [
    .node "mxGeometry" [("width", "160"), ("relative", "1"), ("as", "geometry")] [
      pointCell edge.sourcePoint "sourcePoint", pointCell edge.targetPoint "targetPoint"]]

/-- The cells of a diagram: the two that every document has, those of the boxes, and the edges. -/
def cells (diagram : Diagram) : List Element :=
  .node "mxCell" [("id", "0")] [] :: .node "mxCell" [("id", "1"), ("parent", "0")] []
    :: diagram.boxes.flatMap boxCells ++ diagram.edges.map edgeCell

/-- The document of a diagram. -/
def root (diagram : Diagram) : Element :=
  .node "mxfile" [("host", "classmap"), ("version", "0.1.0")] [
    .node "diagram" [("name", "Page-1"), ("id", "class-diagram")] [
      .node "mxGraphModel" [("dx", "1422"), ("dy", "798"), ("grid", "1"), ("gridSize", "10"),
          ("guides", "1"), ("tooltips", "1"), ("connect", "1"), ("arrows", "1"), ("fold", "1"),
          ("page", "1"), ("pageScale", "1"),
          ("pageWidth", toString (max diagram.width pageWidth)),
          ("pageHeight", toString (max diagram.height pageHeight)), ("math", "0"),
          ("shadow", "0")] [
        .node "root" [] (cells diagram)]]]

/-- The text of the document of a diagram. -/
def render (diagram : Diagram) : String := String.ofList (document (root diagram))

end ClassDiagram.Drawio
