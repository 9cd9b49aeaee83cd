import ClassDiagram.Model.Relationship
import ClassDiagram.Size
import ClassDiagram.Visibility

/-!
# Diagrams

The geometry of a class diagram: boxes with their rows, and edges between points. Coordinates are
pixels from the top left corner; those of rows are counted from the top of their box. What is
computed of a box has 64 bits.
-/

namespace ClassDiagram

/-- A point of a diagram. -/
structure Point where
  x : Nat
  y : Nat
deriving DecidableEq

/-- The section of a box that a row belongs to. -/
inductive RowKind
  | attributes
  | methods
deriving DecidableEq

namespace RowKind

/-- The name under which a section is written and read. -/
def name : RowKind → String
  | attributes => "attribute"
  | methods => "method"

/-- Every section, in the order of listings. -/
def all : List RowKind := [attributes, methods]

end RowKind

/-- A row of a box, for one member. -/
structure Row where
  id : String
  kind : RowKind
  visibility : Visibility
  /-- The glyph of the visibility, and the signature. -/
  text : String
  y : Nat
  height : Nat
deriving DecidableEq

/-- The line between the attributes and the methods of a box. -/
structure Separator where
  id : String
  y : Nat
  height : Nat
deriving DecidableEq

/-- The box of a class. -/
structure Box where
  id : String
  name : String
  x : Nat
  y : Nat
  width : Nat
  height : Nat
  headerHeight : Nat
  rows : List Row
  /-- Present if the box has both attributes and methods. -/
  separator : Option Separator
deriving DecidableEq

namespace Box

/-- The horizontal centre of a box. -/
def centerX (box : Box) : Nat := Size.wrap (box.x + box.width / 2)

/-- The vertical middle of a box. -/
def middleY (box : Box) : Nat := Size.wrap (box.y + box.height / 2)

/-- The right side of a box. -/
def right (box : Box) : Nat := Size.wrap (box.x + box.width)

/-- The bottom of a box. -/
def bottom (box : Box) : Nat := Size.wrap (box.y + box.height)

/-- The rows of one section of a box. -/
def rowsOf (box : Box) (kind : RowKind) : List Row := box.rows.filter (·.kind = kind)

end Box

/-- The head of an edge at its target. -/
inductive Arrow
  | triangle
  | line
deriving DecidableEq

namespace Arrow

/-- The name under which a head is written and read. -/
def name : Arrow → String
  | triangle => "triangle"
  | line => "line"

/-- Every head, in the order of listings. -/
def all : List Arrow := [triangle, line]

/-- The head of an edge of a kind: a hollow triangle points at a supertype. -/
def ofKind (kind : RelationshipKind) : Arrow := if kind.isSubtyping then triangle else line

end Arrow

/-- A drawn relationship. -/
structure Edge where
  id : String
  /-- The identifiers of the joined boxes. -/
  source : String
  target : String
  /-- The names of the joined classes. -/
  sourceName : String
  targetName : String
  kind : RelationshipKind
  sourcePoint : Point
  targetPoint : Point
  arrow : Arrow
deriving DecidableEq

/-- A diagram, with the size of the page it needs. -/
structure Diagram where
  boxes : List Box
  edges : List Edge
  width : Nat
  height : Nat
deriving DecidableEq

end ClassDiagram
