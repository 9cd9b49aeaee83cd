import ClassDiagram.Proofs.Layout.Overflow
import ClassDiagram.Proofs.Model.Store
import Mathlib.Data.List.Nodup

/-!
# Positions on the grid

A class is put into the column and the row that its position asks for. Columns are never without
width, so that boxes in different columns stand beside each other, unless a number overflows. Rows
may be without height: then all of them lie on the first one, and a class covers the one above it.
-/

namespace ClassDiagram

theorem LayoutSettings.validate_eq_ok_iff (settings : LayoutSettings) :
    settings.validate = .ok () ↔ 0 < settings.columns ∧ 0 < settings.boxWidth ∧
      0 < settings.memberHeight ∧ settings.boxWidth ≤ settings.columnWidth := by
  have hpos : ∀ {size : Size}, size ≠ 0 → 0 < size := fun hne =>
    Nat.pos_of_ne_zero fun hzero => hne (Fin.ext hzero)
  unfold validate
  split_ifs with hcolumns hempty hnarrow
  · exact iff_of_false nofun fun h => Fin.ne_of_gt h.1 hcolumns
  · refine iff_of_false nofun fun h => ?_
    exact hempty.elim (Fin.ne_of_gt h.2.1) (Fin.ne_of_gt h.2.2.1)
  · exact iff_of_false nofun fun h => Fin.not_le.mpr hnarrow h.2.2.2
  · obtain ⟨hbox, hmember⟩ := not_or.mp hempty
    exact iff_of_true rfl ⟨hpos hcolumns, hpos hbox, hpos hmember, Fin.not_lt.mp hnarrow⟩

/-- The upper left corner of a box. -/
def Box.corner (box : Box) : Point := ⟨box.x, box.y⟩

namespace Grid

/-- Of two positions the later one is in a lower row, or further right in the same row. -/
theorem div_lt_or_mod_lt {i j : Nat} (hij : i < j) (columns : Nat) :
    i / columns < j / columns ∨ i / columns = j / columns ∧ i % columns < j % columns := by
  rcases Nat.lt_or_eq_of_le (Nat.div_le_div_right (c := columns) (Nat.le_of_lt hij)) with
    hrow | hrow
  · exact .inl hrow
  · refine .inr ⟨hrow, ?_⟩
    have hi := Nat.div_add_mod i columns
    have hj := Nat.div_add_mod j columns
    rw [hrow] at hi
    omega

variable {settings : LayoutSettings} {i j : Nat}

section

variable {a b : ClassRecord} (ha : HasRoom settings i a) (hb : HasRoom settings j b)

include ha hb

theorem right_le_of_mod_lt (hwidth : settings.boxWidth ≤ settings.columnWidth)
    (hcolumn : i % settings.columns < j % settings.columns) :
    (box settings i a).right ≤ (box settings j b).x := by
  have hstep := Nat.mul_le_mul_right settings.columnWidth (Nat.succ_le_of_lt hcolumn)
  rw [Nat.succ_mul] at hstep
  rw [ha.inRange.right_eq, ha.x_eq, hb.x_eq, Nat.add_assoc]
  exact Nat.add_le_add_left (Nat.le_trans (Nat.add_le_add_left hwidth _) hstep) _

theorem bottom_le_of_div_lt
    (hheight : settings.boxHeight a.attributes.length a.methods.length ≤ settings.rowHeight)
    (hrow : i / settings.columns < j / settings.columns) :
    (box settings i a).bottom ≤ (box settings j b).y := by
  have hstep := Nat.mul_le_mul_right settings.rowHeight (Nat.succ_le_of_lt hrow)
  rw [Nat.succ_mul] at hstep
  rw [ha.inRange.bottom_eq, ha.y_eq, hb.y_eq, Nat.add_assoc]
  exact Nat.add_le_add_left (Nat.le_trans (Nat.add_le_add_left hheight _) hstep) _

end

section

variable (hi : CornerInRange settings i) (hj : CornerInRange settings j)

include hi hj

theorem corner_x_eq_iff (hwidth : 0 < settings.columnWidth) :
    (corner settings i).x = (corner settings j).x ↔
      i % settings.columns = j % settings.columns := by
  rw [hi.corner_eq, hj.corner_eq, Nat.add_left_cancel_iff]
  exact Nat.mul_left_inj (Nat.ne_of_gt hwidth)

theorem corner_y_eq_iff :
    (corner settings i).y = (corner settings j).y ↔
      settings.rowHeight = 0 ∨ i / settings.columns = j / settings.columns := by
  rw [hi.corner_eq, hj.corner_eq, Nat.add_left_cancel_iff, ← Fin.val_eq_zero_iff]
  constructor
  · intro hsame
    by_cases hheight : settings.rowHeight.val = 0
    · exact .inl hheight
    · exact .inr (Nat.eq_of_mul_eq_mul_right (Nat.pos_of_ne_zero hheight) hsame)
  · rintro (hheight | hrow)
    · rw [hheight, Nat.mul_zero, Nat.mul_zero]
    · rw [hrow]

/-- Two positions have one corner if they lie in one column, and in one row or in rows without
height. -/
theorem corner_eq_iff (hwidth : 0 < settings.columnWidth) :
    corner settings i = corner settings j ↔ i % settings.columns = j % settings.columns ∧
      (settings.rowHeight = 0 ∨ i / settings.columns = j / settings.columns) := by
  rw [← corner_y_eq_iff hi hj, ← corner_x_eq_iff hi hj hwidth, corner, corner, Point.mk.injEq]

end

theorem map_corner_boxes (settings : LayoutSettings) (position : Nat)
    (records : List ClassRecord) :
    (boxes settings position records).map Box.corner =
      (List.range' position records.length).map (corner settings) := by
  induction records generalizing position with
  | nil => rfl
  | cons record rest ih =>
      rw [boxes, List.map_cons, ih, List.length_cons, List.range'_succ, List.map_cons]
      rfl

/-- The corners of some boxes differ if rows have a height, or if all boxes are in one row. -/
theorem nodup_corners_iff (hsettings : settings.validate = .ok ()) {count : Nat}
    (hrange : ∀ position < count, CornerInRange settings position) :
    ((List.range count).map (corner settings)).Nodup ↔
      0 < settings.rowHeight ∨ count ≤ settings.columns := by
  obtain ⟨hcolumns, hbox, _, hcolumn⟩ := settings.validate_eq_ok_iff.mp hsettings
  have hwidth : 0 < settings.columnWidth := Fin.lt_of_lt_of_le hbox hcolumn
  rw [List.nodup_map_iff_inj_on List.nodup_range]
  constructor
  · intro hapart
    by_contra hnot
    obtain ⟨hflat, hcount⟩ := not_or.mp hnot
    have hflat : settings.rowHeight = 0 := Fin.le_zero_iff.mp (Fin.not_lt.mp hflat)
    have hcount : settings.columns.val < count := Nat.lt_of_not_le hcount
    have hfirst : 0 < count := Nat.lt_of_le_of_lt (Nat.zero_le _) hcount
    -- The first class of the second row covers the first one of all.
    have hsame : corner settings 0 = corner settings settings.columns := by
      rw [corner_eq_iff (hrange _ hfirst) (hrange _ hcount) hwidth]
      exact ⟨by simp, .inl hflat⟩
    have hzero := hapart 0 (List.mem_range.mpr hfirst) settings.columns
      (List.mem_range.mpr hcount) hsame
    exact Nat.ne_of_lt hcolumns hzero
  · intro hroom i hi j hj hsame
    rw [List.mem_range] at hi hj
    obtain ⟨hmod, hrow⟩ := (corner_eq_iff (hrange i hi) (hrange j hj) hwidth).mp hsame
    rcases hroom with hheight | hcount
    · have hdiv := hrow.resolve_left (Fin.ne_of_gt hheight)
      rw [← Nat.div_add_mod i settings.columns, hdiv, hmod, Nat.div_add_mod]
    · rwa [Nat.mod_eq_of_lt (by omega), Nat.mod_eq_of_lt (by omega)] at hmod

end Grid

/-- Unless a number overflows, two boxes of a diagram have the same left side exactly if they stand
in one column of the grid, and the same top exactly if they stand in one row or rows have no height.
So all boxes stand at different places exactly if rows have a height, or if one row holds all
classes. -/
theorem layout_nodup_corners_iff {settings : LayoutSettings}
    (hsettings : settings.validate = .ok ()) {model : Model}
    (hrange : Grid.NoOverflow settings model.classes.toList) :
    ∃ diagram, layout settings model = .ok diagram ∧
      diagram.boxes.length = model.classes.size ∧
      (∀ (i j : Nat) (a b : Box), diagram.boxes[i]? = some a → diagram.boxes[j]? = some b →
        (a.x = b.x ↔ i % settings.columns = j % settings.columns) ∧
        (a.y = b.y ↔ settings.rowHeight = 0 ∨ i / settings.columns = j / settings.columns)) ∧
      ((diagram.boxes.map Box.corner).Nodup ↔
        0 < settings.rowHeight ∨ model.classes.size ≤ settings.columns) := by
  obtain ⟨diagram, hlayout, hboxes, _⟩ := Grid.exists_layout hsettings model
  obtain ⟨_, hbox, _, hcolumn⟩ := settings.validate_eq_ok_iff.mp hsettings
  have hcorners := Grid.map_corner_boxes settings 0 model.classes.toList
  rw [Array.length_toList, ← List.range_eq_range', ← hboxes] at hcorners
  have hlength := congrArg List.length hcorners
  rw [List.length_map, List.length_map, List.length_range] at hlength
  refine ⟨diagram, hlayout, hlength, ?_, ?_⟩
  · intro i j a b ha hb
    rw [hboxes, Grid.getElem?_boxes, Nat.zero_add] at ha hb
    obtain ⟨first, hfirst, rfl⟩ := Option.map_eq_some_iff.mp ha
    obtain ⟨second, hsecond, rfl⟩ := Option.map_eq_some_iff.mp hb
    have hi := (hrange i first hfirst).cornerInRange
    have hj := (hrange j second hsecond).cornerInRange
    exact ⟨Grid.corner_x_eq_iff hi hj (Fin.lt_of_lt_of_le hbox hcolumn), Grid.corner_y_eq_iff hi hj⟩
  · rw [hcorners]
    refine Grid.nodup_corners_iff hsettings fun position hposition => ?_
    exact (hrange position _ (List.getElem?_eq_getElem hposition)).cornerInRange

/-- A class in each of two rows that have a height. -/
theorem layout_nodup_corners_iff_two_rows :
    let settings := { LayoutSettings.default with columns := 1, rowHeight := 1 }
    let records : List ClassRecord := [⟨"A", [], []⟩, ⟨"B", [], []⟩]
    let model := Model.ofParts records []
    settings.validate = .ok () ∧ Grid.NoOverflow settings model.classes.toList ∧
      ∃ diagram, layout settings model = .ok diagram ∧
        (diagram.boxes.map Box.corner).Nodup := by
  intro settings records model
  have hsettings : settings.validate = .ok () := rfl
  have hrecords : model.classes.toList = records :=
    (Model.toList_ofParts (by decide) (by decide) (by decide)).1
  have hrange : Grid.NoOverflow settings model.classes.toList := by
    rw [hrecords]
    decide
  obtain ⟨diagram, hlayout, _, _, hcorners⟩ := layout_nodup_corners_iff hsettings hrange
  exact ⟨hsettings, hrange, diagram, hlayout, hcorners.mpr (.inl (by decide))⟩

/-- Rows without a height are not refused: four classes on three columns, the last of which covers
the first. -/
theorem layout_nodup_corners_flatRows :
    let settings := { LayoutSettings.default with rowHeight := 0 }
    let records : List ClassRecord := [⟨"A", [], []⟩, ⟨"B", [], []⟩, ⟨"C", [], []⟩, ⟨"D", [], []⟩]
    settings.validate = .ok () ∧
      ∃ diagram, layout settings (Model.ofParts records []) = .ok diagram ∧
        diagram.boxes.map Box.corner = [⟨100, 100⟩, ⟨400, 100⟩, ⟨700, 100⟩, ⟨100, 100⟩] := by
  intro settings records
  have hsettings : settings.validate = .ok () := rfl
  have hrecords : (Model.ofParts records []).classes.toList = records :=
    (Model.toList_ofParts (by decide) (by decide) (by decide)).1
  obtain ⟨diagram, hlayout, hboxes, _⟩ := Grid.exists_layout hsettings (Model.ofParts records [])
  refine ⟨hsettings, diagram, hlayout, ?_⟩
  rw [hboxes, hrecords, Grid.map_corner_boxes]
  decide

end ClassDiagram
