import ClassDiagram.Proofs.Layout.Grid
import ClassDiagram.Proofs.Text.Extent

/-!
# Layouts without overflow

Measures have 64 bits and wrap around. A layout does not overflow if each of its boxes, and the
margin behind it, ends at a number of 64 bits. Then no number of the diagram is wrapped: boxes are
where the grid has them, and as high as their members need.
-/

namespace ClassDiagram

/-- The right side and the bottom of a box are numbers of 64 bits, and so is all above and left of
them. -/
structure Box.InRange (box : Box) : Prop where
  right : box.x + box.width < UInt64.size
  bottom : box.y + box.height < UInt64.size

namespace Box.InRange

variable {box : Box} (h : box.InRange)

include h

theorem right_eq : box.right = box.x + box.width := Size.wrap_of_lt h.right

theorem bottom_eq : box.bottom = box.y + box.height := Size.wrap_of_lt h.bottom

theorem centerX_eq : box.centerX = box.x + box.width / 2 :=
  Size.wrap_of_lt
    (Nat.lt_of_le_of_lt (Nat.add_le_add_left (Nat.div_le_self ..) _) h.right)

theorem middleY_eq : box.middleY = box.y + box.height / 2 :=
  Size.wrap_of_lt
    (Nat.lt_of_le_of_lt (Nat.add_le_add_left (Nat.div_le_self ..) _) h.bottom)

end Box.InRange

namespace Grid

/-- The corner of the box at a position, whatever class is there. -/
def corner (settings : LayoutSettings) (position : Nat) : Point where
  x := Size.wrap (settings.margin + position % settings.columns * settings.columnWidth)
  y := Size.wrap (settings.margin + position / settings.columns * settings.rowHeight)

/-- The corner of the box at a position is where the grid has it. -/
structure CornerInRange (settings : LayoutSettings) (position : Nat) : Prop where
  x : settings.margin + position % settings.columns * settings.columnWidth < UInt64.size
  y : settings.margin + position / settings.columns * settings.rowHeight < UInt64.size

/-- There is room for the box of a class, and for the margin behind it. -/
structure HasRoom (settings : LayoutSettings) (position : Nat) (record : ClassRecord) :
    Prop where
  width : settings.margin + position % settings.columns * settings.columnWidth
    + settings.boxWidth + settings.margin < UInt64.size
  height : settings.margin + position / settings.columns * settings.rowHeight
    + settings.fullHeight record.attributes.length record.methods.length + settings.margin
    < UInt64.size

/-- No number overflows in the layout of some classes: there is room for each of them. -/
def NoOverflow (settings : LayoutSettings) (records : List ClassRecord) : Prop :=
  ∀ position record, records[position]? = some record → HasRoom settings position record

variable {settings : LayoutSettings} {position : Nat} {record : ClassRecord}

instance : Decidable (HasRoom settings position record) :=
  decidable_of_iff (_ ∧ _) ⟨fun h => ⟨h.1, h.2⟩, fun h => ⟨h.width, h.height⟩⟩

theorem noOverflow_iff_zipIdx {records : List ClassRecord} :
    NoOverflow settings records ↔ ∀ entry ∈ records.zipIdx, HasRoom settings entry.2 entry.1 := by
  constructor
  · intro h entry hentry
    exact h entry.2 entry.1 (List.mk_mem_zipIdx_iff_getElem?.mp hentry)
  · intro h position record hrecord
    exact h (record, position) (List.mk_mem_zipIdx_iff_getElem?.mpr hrecord)

instance (records : List ClassRecord) : Decidable (NoOverflow settings records) :=
  decidable_of_iff _ noOverflow_iff_zipIdx.symm

theorem CornerInRange.corner_eq (h : CornerInRange settings position) :
    corner settings position =
      ⟨settings.margin + position % settings.columns * settings.columnWidth,
        settings.margin + position / settings.columns * settings.rowHeight⟩ := by
  rw [corner, Size.wrap_of_lt h.x, Size.wrap_of_lt h.y]

namespace HasRoom

variable (h : HasRoom settings position record)

include h

theorem cornerInRange : CornerInRange settings position where
  x := Nat.lt_of_le_of_lt (Nat.le_add_right_of_le (Nat.le_add_right ..)) h.width
  y := Nat.lt_of_le_of_lt (Nat.le_add_right_of_le (Nat.le_add_right ..)) h.height

theorem x_eq : (box settings position record).x =
    settings.margin + position % settings.columns * settings.columnWidth :=
  Size.wrap_of_lt h.cornerInRange.x

theorem y_eq : (box settings position record).y =
    settings.margin + position / settings.columns * settings.rowHeight :=
  Size.wrap_of_lt h.cornerInRange.y

theorem fullHeight_lt :
    settings.fullHeight record.attributes.length record.methods.length < UInt64.size :=
  Nat.lt_of_le_of_lt (Nat.le_add_right_of_le (Nat.le_add_left ..)) h.height

theorem height_eq : (box settings position record).height =
    settings.fullHeight record.attributes.length record.methods.length :=
  Size.wrap_of_lt h.fullHeight_lt

theorem inRange : (box settings position record).InRange where
  right := h.x_eq ▸ Nat.lt_of_le_of_lt (Nat.le_add_right ..) h.width
  bottom := h.y_eq ▸ h.height_eq ▸ Nat.lt_of_le_of_lt (Nat.le_add_right ..) h.height

/-- The box ends a margin before the last number. -/
theorem page_lt : (box settings position record).right + settings.margin < UInt64.size ∧
    (box settings position record).bottom + settings.margin < UInt64.size := by
  rw [h.inRange.right_eq, h.inRange.bottom_eq, h.x_eq, h.y_eq, h.height_eq]
  exact ⟨h.width, h.height⟩

end HasRoom

theorem NoOverflow.hasRoom_of_mem {records : List ClassRecord} (h : NoOverflow settings records)
    {b : Box} (hb : b ∈ boxes settings 0 records) :
    ∃ i record, records[i]? = some record ∧ b = box settings i record ∧
      HasRoom settings i record := by
  obtain ⟨i, record, hrecord, rfl⟩ := mem_boxes_iff.mp hb
  exact ⟨i, record, hrecord, rfl, h i record hrecord⟩

end Grid

end ClassDiagram
