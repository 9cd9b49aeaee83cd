import ClassDiagram.Failure
import ClassDiagram.Size

/-!
# Layout settings

The measures of the grid that classes are placed on, in pixels. Some settings that give no grid are
refused: there must be a column, boxes must have a width and member rows a height, and a column must
be as wide as a box.
-/

namespace ClassDiagram

/-- The measures of a diagram. -/
structure LayoutSettings where
  margin : Size
  columns : Size
  columnWidth : Size
  rowHeight : Size
  boxWidth : Size
  headerHeight : Size
  memberHeight : Size
  separatorHeight : Size
deriving DecidableEq

namespace LayoutSettings

/-- The settings used where none are given. -/
def default : LayoutSettings where
  margin := 100
  columns := 3
  columnWidth := 300
  rowHeight := 400
  boxWidth := 240
  headerHeight := 26
  memberHeight := 26
  separatorHeight := 8

/-- Refuses settings that give no grid; of several faults the first in this order is named. Rows of
the grid without a height are not refused. -/
def validate (settings : LayoutSettings) : Except Failure Unit :=
  if settings.columns = 0 then .error (.invalidSettings .noColumns)
  else if settings.boxWidth = 0 ∨ settings.memberHeight = 0 then
    .error (.invalidSettings .emptyBox)
  else if settings.columnWidth < settings.boxWidth then
    .error (.invalidSettings (.narrowColumn settings.columnWidth settings.boxWidth))
  else .ok ()

/-- The height of the separator of a box: it has one only between attributes and methods. -/
def separatorBetween (settings : LayoutSettings) (attributes methods : Nat) : Nat :=
  if 0 < attributes ∧ 0 < methods then settings.separatorHeight else 0

/-- The height that the given numbers of attributes and methods need, however large it is. -/
def fullHeight (settings : LayoutSettings) (attributes methods : Nat) : Nat :=
  settings.headerHeight + (attributes + methods) * settings.memberHeight
    + settings.separatorBetween attributes methods

/-- The height of a box with the given numbers of attributes and methods. -/
def boxHeight (settings : LayoutSettings) (attributes methods : Nat) : Nat :=
  Size.wrap (settings.fullHeight attributes methods)

end LayoutSettings

end ClassDiagram
