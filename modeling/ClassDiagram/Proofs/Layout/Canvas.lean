import ClassDiagram.Proofs.Layout.Drawn
import ClassDiagram.Proofs.Layout.Position
import Mathlib

/-!
# The boxes on their canvas

Two boxes lie in different columns or in different rows of the grid. Columns are at least as wide
as boxes, and where rows are at least as high as boxes, no box reaches into another. The canvas is
the smallest that leaves a margin around all boxes; edges stay on it, as they end at the sides of
boxes.
-/

namespace ClassDiagram

/-- The points inside a box, without its sides. -/
def Box.interior (box : Box) : Set (ℚ × ℚ) :=
  Set.Ioo (box.x : ℚ) box.right ×ˢ Set.Ioo (box.y : ℚ) box.bottom

namespace Box

variable {a b : Box}

theorem disjoint_interior_of_beside (h : a.right ≤ b.x) : Disjoint a.interior b.interior := by
  have hcast : (a.right : ℚ) ≤ b.x := Nat.cast_le.mpr h
  refine Set.disjoint_prod.mpr (.inl (Set.Ioo_disjoint_Ioo.mpr ?_))
  exact (min_le_left _ _).trans (hcast.trans (le_max_right _ _))

theorem disjoint_interior_of_above (h : a.bottom ≤ b.y) : Disjoint a.interior b.interior := by
  have hcast : (a.bottom : ℚ) ≤ b.y := Nat.cast_le.mpr h
  refine Set.disjoint_prod.mpr (.inr (Set.Ioo_disjoint_Ioo.mpr ?_))
  exact (min_le_left _ _).trans (hcast.trans (le_max_right _ _))

end Box

namespace Grid

variable {settings : LayoutSettings}

theorem disjoint_interior_box (hsettings : settings.validate = .ok ()) {i j : Nat} (hij : i < j)
    {a b : ClassRecord} (ha : HasRoom settings i a) (hb : HasRoom settings j b)
    (hheight : settings.boxHeight a.attributes.length a.methods.length ≤ settings.rowHeight) :
    Disjoint (box settings i a).interior (box settings j b).interior := by
  obtain ⟨_, _, _, hwidth⟩ := settings.validate_eq_ok_iff.mp hsettings
  rcases div_lt_or_mod_lt hij settings.columns with hrow | ⟨_, hcolumn⟩
  · exact Box.disjoint_interior_of_above (bottom_le_of_div_lt ha hb hheight hrow)
  · exact Box.disjoint_interior_of_beside (right_le_of_mod_lt ha hb hwidth hcolumn)

theorem pairwise_disjoint_boxes (hsettings : settings.validate = .ok ())
    {records : List ClassRecord} (hrange : NoOverflow settings records)
    (hheights : ∀ record ∈ records, settings.boxHeight record.attributes.length
      record.methods.length ≤ settings.rowHeight) :
    (boxes settings 0 records).Pairwise fun a b => Disjoint a.interior b.interior := by
  rw [List.pairwise_iff_getElem]
  intro i j hi hj hij
  obtain ⟨a, ha, hbox⟩ := Option.map_eq_some_iff.mp
    ((getElem?_boxes settings 0 records i).symm.trans (List.getElem?_eq_getElem hi))
  obtain ⟨b, hb, hother⟩ := Option.map_eq_some_iff.mp
    ((getElem?_boxes settings 0 records j).symm.trans (List.getElem?_eq_getElem hj))
  rw [← hbox, ← hother, Nat.zero_add, Nat.zero_add]
  exact disjoint_interior_box hsettings hij (hrange i a ha) (hrange j b hb)
    (hheights a (List.mem_of_getElem? ha))

/-! ## The canvas -/

theorem largest_eq (numbers : List Nat) : largest numbers = numbers.max?.getD 0 := by
  rw [largest, List.foldl_max, Nat.zero_max]

theorem le_largest {numbers : List Nat} {n : Nat} (h : n ∈ numbers) : n ≤ largest numbers := by
  rw [largest_eq]
  exact List.le_max?_getD_of_mem h

theorem largest_mem {numbers : List Nat} (h : numbers ≠ []) : largest numbers ∈ numbers := by
  obtain ⟨n, hn⟩ := Option.ne_none_iff_exists'.mp (mt List.max?_eq_none_iff.mp h)
  rw [largest_eq, hn]
  exact (List.max?_eq_some_iff.mp hn).1

/-- The largest of some sides is a side of a box. -/
theorem exists_largest {boxes : List Box} (hsome : boxes ≠ []) (side : Box → Nat) :
    ∃ box ∈ boxes, side box = largest (boxes.map side) :=
  List.mem_map.mp (largest_mem (mt List.map_eq_nil_iff.mp hsome))

/-- An edge ends at its boxes, and so within all that surrounds them. -/
theorem ends_le {source target : Box} {width height : Nat} (hs : source.InRange)
    (ht : target.InRange) (hsource : source.right ≤ width ∧ source.bottom ≤ height)
    (htarget : target.right ≤ width ∧ target.bottom ≤ height) :
    ((ends source target).1.x ≤ width ∧ (ends source target).1.y ≤ height) ∧
      (ends source target).2.x ≤ width ∧ (ends source target).2.y ≤ height := by
  rw [hs.right_eq, hs.bottom_eq] at hsource
  rw [ht.right_eq, ht.bottom_eq] at htarget
  unfold ends
  split_ifs <;>
    simp only [hs.right_eq, hs.bottom_eq, hs.centerX_eq, hs.middleY_eq, ht.right_eq, ht.bottom_eq,
      ht.centerX_eq, ht.middleY_eq] <;> omega

/-- A page with room for a margin behind all sides ends a margin behind the largest of them. -/
theorem page_eq {boxes : List Box} (hsome : boxes ≠ []) {side : Box → Nat} {margin : Nat}
    (hroom : ∀ box ∈ boxes, side box + margin < UInt64.size) :
    Size.wrap (largest (boxes.map side) + margin) = largest (boxes.map side) + margin := by
  obtain ⟨box, hbox, hside⟩ := exists_largest hsome side
  rw [← hside]
  exact Size.wrap_of_lt (hroom box hbox)

/-- Where no number overflows, the page of a diagram ends a margin behind its largest sides. -/
theorem exists_layout_page (hsettings : settings.validate = .ok ()) {model : Model}
    (hrange : NoOverflow settings model.classes.toList) :
    ∃ diagram, layout settings model = .ok diagram ∧
      diagram.boxes = boxes settings 0 model.classes.toList ∧
      diagram.edges = edges model diagram.boxes.toArray 0 model.relationships.toList ∧
      (∀ box ∈ diagram.boxes, box.InRange) ∧
      (diagram.boxes ≠ [] →
        diagram.width = largest (diagram.boxes.map (·.right)) + settings.margin ∧
          diagram.height = largest (diagram.boxes.map (·.bottom)) + settings.margin) := by
  obtain ⟨diagram, hlayout, hboxes, hedges, hwidth, hheight⟩ := exists_layout hsettings model
  have hroom : ∀ box ∈ diagram.boxes, box.InRange ∧
      box.right + settings.margin < UInt64.size ∧ box.bottom + settings.margin < UInt64.size := by
    intro box hbox
    obtain ⟨_, _, _, rfl, hroom⟩ := hrange.hasRoom_of_mem (hboxes ▸ hbox)
    exact ⟨hroom.inRange, hroom.page_lt⟩
  refine ⟨diagram, hlayout, hboxes, hedges, fun box hbox => (hroom box hbox).1, ?_⟩
  intro hsome
  rw [hwidth, hheight, if_neg (by simpa using hsome), if_neg (by simpa using hsome)]
  exact ⟨page_eq hsome fun box hbox => (hroom box hbox).2.1,
    page_eq hsome fun box hbox => (hroom box hbox).2.2⟩

end Grid

/-- The diagram of a model whose boxes fit into the rows of the grid, where no number overflows: each
class has a box, and no two of them share a point but at their sides; every box keeps a margin to
the canvas, which is not larger than that needs; and edges do not leave the canvas. -/
theorem layout_fits_canvas {settings : LayoutSettings} {model : Model}
    (hsettings : settings.validate = .ok ())
    (hrange : Grid.NoOverflow settings model.classes.toList)
    (hheights : ∀ record ∈ model.classes.toList, settings.boxHeight record.attributes.length
      record.methods.length ≤ settings.rowHeight) :
    ∃ diagram, layout settings model = .ok diagram ∧
      diagram.boxes.map (·.name) = model.classes.toList.map (·.name) ∧
      (diagram.boxes.Pairwise fun a b => Disjoint a.interior b.interior) ∧
      (∀ box ∈ diagram.boxes, settings.margin ≤ box.x ∧ settings.margin ≤ box.y ∧
        box.right + settings.margin ≤ diagram.width ∧
        box.bottom + settings.margin ≤ diagram.height) ∧
      (diagram.boxes ≠ [] →
        (∃ box ∈ diagram.boxes, box.right + settings.margin = diagram.width) ∧
        ∃ box ∈ diagram.boxes, box.bottom + settings.margin = diagram.height) ∧
      ∀ edge ∈ diagram.edges,
        (edge.sourcePoint.x ≤ diagram.width ∧ edge.sourcePoint.y ≤ diagram.height) ∧
        edge.targetPoint.x ≤ diagram.width ∧ edge.targetPoint.y ≤ diagram.height := by
  obtain ⟨diagram, hlayout, hboxes, hedges, hboxRange, hcanvas⟩ :=
    Grid.exists_layout_page hsettings hrange
  have hinside : ∀ box ∈ diagram.boxes, box.right + settings.margin ≤ diagram.width ∧
      box.bottom + settings.margin ≤ diagram.height := by
    intro box hbox
    obtain ⟨hwidth, hheight⟩ := hcanvas (List.ne_nil_of_mem hbox)
    rw [hwidth, hheight]
    exact ⟨Nat.add_le_add_right (Grid.le_largest (List.mem_map_of_mem hbox)) _,
      Nat.add_le_add_right (Grid.le_largest (List.mem_map_of_mem hbox)) _⟩
  refine ⟨diagram, hlayout, hboxes ▸ Grid.map_name_boxes settings 0 _,
    hboxes ▸ Grid.pairwise_disjoint_boxes hsettings hrange hheights, ?_, ?_, ?_⟩
  · intro box hbox
    obtain ⟨i, record, _, rfl, hroom⟩ := hrange.hasRoom_of_mem (hboxes ▸ hbox)
    refine ⟨?_, ?_, hinside _ hbox⟩
    · exact hroom.x_eq ▸ Nat.le_add_right _ _
    · exact hroom.y_eq ▸ Nat.le_add_right _ _
  · intro hsome
    obtain ⟨hwidth, hheight⟩ := hcanvas hsome
    obtain ⟨widest, hwidest, hright⟩ := Grid.exists_largest hsome (·.right)
    obtain ⟨lowest, hlowest, hbottom⟩ := Grid.exists_largest hsome (·.bottom)
    rw [hwidth, hheight, ← hright, ← hbottom]
    exact ⟨⟨widest, hwidest, rfl⟩, lowest, hlowest, rfl⟩
  · intro edge hedge
    have hwithin : ∀ box ∈ diagram.boxes, box.InRange ∧
        box.right ≤ diagram.width ∧ box.bottom ≤ diagram.height := fun box hbox =>
      ⟨hboxRange box hbox, (Nat.le_add_right _ _).trans (hinside box hbox).1,
        (Nat.le_add_right _ _).trans (hinside box hbox).2⟩
    obtain ⟨_, _, source, hsource, target, htarget, rfl⟩ :=
      Grid.exists_of_mem_edges (hedges ▸ hedge)
    obtain ⟨hs, hsource⟩ := hwithin source (List.mem_toArray.mp hsource)
    obtain ⟨ht, htarget⟩ := hwithin target (List.mem_toArray.mp htarget)
    exact Grid.ends_le hs ht hsource htarget

/-- Four classes on three columns, the first of them as high as a row allows; the fourth is joined
to it from below. -/
theorem layout_fits_canvas_four_classes :
    let records : List ClassRecord := [⟨"A", List.replicate 6 "+int x", List.replicate 7 "+f()"⟩,
      ⟨"B", [], []⟩, ⟨"C", [], []⟩, ⟨"D", ["-A a"], []⟩]
    let model := Model.ofParts records [⟨"D", "A", .association⟩]
    LayoutSettings.default.validate = .ok () ∧
      Grid.NoOverflow .default model.classes.toList ∧
      (∀ record ∈ model.classes.toList, LayoutSettings.default.boxHeight record.attributes.length
        record.methods.length ≤ LayoutSettings.default.rowHeight) ∧
      ∃ diagram a d, ∃ edge : Edge, layout .default model = .ok diagram ∧
        diagram.boxes[0]? = some a ∧ diagram.boxes[3]? = some d ∧
        d.name = "D" ∧ d.corner = ⟨100, 500⟩ ∧ d.bottom + 100 ≤ diagram.height ∧
        Disjoint a.interior d.interior ∧ diagram.edges = [edge] ∧
        edge.sourcePoint = ⟨220, 500⟩ ∧ edge.targetPoint = ⟨220, 472⟩ ∧
        edge.sourcePoint.x ≤ diagram.width := by
  intro records model
  have hrecords : model.classes.toList = records :=
    (Model.toList_ofParts (by decide) (by decide) (by decide)).1
  have hsettings : LayoutSettings.default.validate = .ok () := rfl
  have hrange : Grid.NoOverflow .default model.classes.toList := by
    rw [hrecords]
    decide
  have hheights : ∀ record ∈ model.classes.toList, LayoutSettings.default.boxHeight
      record.attributes.length record.methods.length ≤ LayoutSettings.default.rowHeight := by
    rw [hrecords]
    decide
  obtain ⟨diagram, hlayout, _, hdisjoint, hinside, _, hedges⟩ :=
    layout_fits_canvas hsettings hrange hheights
  obtain ⟨_, hsame, hboxes, hedge⟩ := @Grid.exists_layout_related _ hsettings records (by decide)
    (by decide) 3 0 _ _ rfl rfl .association
  obtain rfl := Except.ok.inj (hlayout.symm.trans hsame)
  have hfirst : diagram.boxes[0]? = some _ := congrArg (·[0]?) hboxes
  have hlast : diagram.boxes[3]? = some _ := congrArg (·[3]?) hboxes
  have hinsideLast := hinside _ (List.mem_of_getElem? hlast)
  obtain ⟨hzero, ha⟩ := List.getElem?_eq_some_iff.mp hfirst
  obtain ⟨hthree, hd⟩ := List.getElem?_eq_some_iff.mp hlast
  have hapart := List.pairwise_iff_getElem.mp hdisjoint 0 3 hzero hthree (by decide)
  rw [ha, hd] at hapart
  have hwithin := hedges _ (hedge ▸ List.mem_singleton_self _)
  exact ⟨hsettings, hrange, hheights, diagram, _, _, _, hlayout, hfirst, hlast, rfl, by decide,
    hinsideLast.2.2.2, hapart, hedge, by decide, by decide, hwithin.1.1⟩

end ClassDiagram
