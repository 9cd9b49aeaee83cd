import ClassDiagram.Proofs.Layout.Position

/-!
# The parts of a box

The height of a box is computed from the numbers of its members, and the rows are put one below the
other from the header on. The two agree as long as the height is a number of 64 bits: header,
attributes, separator and methods fill the box from its top to its bottom without a gap, and each
line of pixels belongs to one of them. A height that wraps around is too small for the parts.
-/

namespace ClassDiagram

/-- A horizontal strip of a box; the top is counted from the top of the box. -/
structure Strip where
  top : Nat
  height : Nat

namespace Strip

/-- A line of pixels belongs to a strip. -/
def Covers (strip : Strip) (line : Nat) : Prop :=
  strip.top ≤ line ∧ line < strip.top + strip.height

/-- Each strip starts where the one before it ends, the first of them at `top`, and the last ends at
`bottom`. -/
def Tile : Nat → List Strip → Nat → Prop
  | top, [], bottom => top = bottom
  | top, strip :: rest, bottom => strip.top = top ∧ Tile (top + strip.height) rest bottom

variable {top middle bottom : Nat} {strips others : List Strip}

theorem Tile.append (h : Tile top strips middle) (hothers : Tile middle others bottom) :
    Tile top (strips ++ others) bottom := by
  induction strips generalizing top with
  | nil =>
      obtain rfl : top = middle := h
      exact hothers
  | cons strip rest ih => exact ⟨h.1, ih h.2⟩

end Strip

/-! ## Rows and boxes -/

def Row.strip (row : Row) : Strip := ⟨row.y, row.height⟩

def Separator.strip (separator : Separator) : Strip := ⟨separator.y, separator.height⟩

/-- The parts of a box in their order: the header, the attributes, the separator if there is one,
and the methods. -/
def Box.strips (box : Box) : List Strip :=
  ⟨0, box.headerHeight⟩ :: ((box.rowsOf .attributes).map Row.strip
    ++ box.separator.toList.map Separator.strip ++ (box.rowsOf .methods).map Row.strip)

/-- The box shows the class of a record: each member has a row, and the parts fill the box unless
their heights together are no number of 64 bits. -/
structure Box.Shows (settings : LayoutSettings) (box : Box) (record : ClassRecord) : Prop where
  name : box.name = record.name
  headerHeight : box.headerHeight = settings.headerHeight
  height : box.height = settings.boxHeight record.attributes.length record.methods.length
  tile_iff : Strip.Tile 0 box.strips box.height ↔
    settings.fullHeight record.attributes.length record.methods.length < UInt64.size
  separator_iff : box.separator.isSome = true ↔ record.attributes ≠ [] ∧ record.methods ≠ []
  /-- The attributes stand in front of the methods, both in the order of the record. -/
  rows : box.rows.map (fun row => (row.kind, row.text)) =
    record.attributes.map (fun signature =>
        (RowKind.attributes, String.ofList (Visibility.normalize signature.toList)))
      ++ record.methods.map fun signature =>
        (RowKind.methods, String.ofList (Visibility.normalize signature.toList))

namespace Grid

/-! ## Rows -/

variable (settings : LayoutSettings) (position : Nat) (record : ClassRecord)

end Grid

end ClassDiagram
