import ClassDiagram.Proofs.Drawio.References
import Mathlib.Data.List.Forall2

/-!
# The headers of swimlanes

The style of a swimlane declares how much room the editor leaves above the first cell in it. The
style is a fixed text, and it names the height that a header has by default; the rows of a box start
below the header that the settings give it. So a document agrees with itself exactly for settings
that keep the default height, apart from diagrams in which nothing can disagree.
-/

namespace ClassDiagram.Drawio

open Xml

/-! ## Styles -/

/-- The entries of a style. Each is a name, or a key with a value. -/
def styleEntries (style : String) : List (List Char) := style.toList.splitOn ';'

/-- The value that a style gives to a key. -/
def styleValue? (key style : String) : Option (List Char) :=
  (styleEntries style).findSome? (Source.after? (key ++ "=").toList)

/-- Whether a style starts with the name of the swimlane shape. -/
def isLaneStyle (style : String) : Bool :=
  (styleEntries style).head? = some "swimlane".toList

/-- The style of a box names the shape of a swimlane and declares a height of 26. -/
theorem classStyle_declares : isLaneStyle classStyle = true ∧
    styleValue? "startSize" classStyle = some ['2', '6'] := by
  decide +kernel

theorem isLaneStyle_memberStyle : isLaneStyle memberStyle = false := by decide +kernel

theorem isLaneStyle_separatorStyle : isLaneStyle separatorStyle = false := by decide +kernel

theorem isLaneStyle_edgeStyle (kind : RelationshipKind) : isLaneStyle (edgeStyle kind) = false := by
  cases kind <;> decide +kernel

namespace Cell

/-- The style of a cell. -/
def style? : Cell → Option String
  | layer .. => none
  | vertex _ _ style .. => some style
  | edge _ _ style .. => some style

/-- Whether a cell is drawn as a swimlane. -/
def isLane (cell : Cell) : Bool := cell.style?.any isLaneStyle

/-- The room that the style of a cell declares above the cells in it. -/
def startSize? (cell : Cell) : Option Nat :=
  (cell.style?.bind (styleValue? "startSize")).bind decimal?

/-- How far below the top of its parent a cell starts. -/
def y? : Cell → Option Nat
  | vertex _ _ _ _ _ y .. => some y
  | _ => none

/-- The first of some cells that lies in another one. -/
def firstChild? (cells : List Cell) (parent : Cell) : Option Cell :=
  (cells.filter fun cell => cell.parent? = some parent.id).head?

section

variable (id value style parent : String) (x : Option Nat) (y width height : Nat)

theorem isLane_vertex :
    (vertex id value style parent x y width height).isLane = isLaneStyle style := rfl

theorem isLane_edge (source target : String) (sourcePoint targetPoint : Point) :
    (edge id value style parent source target sourcePoint targetPoint).isLane =
      isLaneStyle style := rfl

theorem startSize?_vertex :
    (vertex id value style parent x y width height).startSize? =
      (styleValue? "startSize" style).bind decimal? := rfl

end

/-! ## The cells of a box -/

/-- The swimlane of a box. -/
def laneOf (b : Box) : Cell := .vertex b.id b.name classStyle "1" (some b.x) b.y b.width b.height

/-- The cells that lie in the swimlane of a box. -/
def childrenOf (b : Box) : List Cell :=
  (b.rowsOf .attributes).map (ofRow b)
    ++ b.separator.toList.map (fun separator =>
      .vertex separator.id "" separatorStyle b.id none separator.y b.width separator.height)
    ++ (b.rowsOf .methods).map (ofRow b)

theorem ofBox_eq (b : Box) : ofBox b = laneOf b :: childrenOf b := rfl

theorem isLane_laneOf (b : Box) : (laneOf b).isLane = true := by
  rw [laneOf, isLane_vertex, classStyle_declares.1]

theorem startSize?_laneOf (b : Box) : (laneOf b).startSize? = some 26 := by
  rw [laneOf, startSize?_vertex, classStyle_declares.2]
  decide

/-- What lies in the swimlane of a box is no swimlane itself. -/
theorem of_mem_childrenOf {b : Box} {cell : Cell} (h : cell ∈ childrenOf b) :
    cell.parent? = some b.id ∧ cell.isLane = false := by
  simp only [childrenOf, List.mem_append, List.mem_map] at h
  rcases h with (⟨_, _, rfl⟩ | ⟨_, _, rfl⟩) | ⟨_, _, rfl⟩
  · exact ⟨rfl, (isLane_vertex ..).trans isLaneStyle_memberStyle⟩
  · exact ⟨rfl, (isLane_vertex ..).trans isLaneStyle_separatorStyle⟩
  · exact ⟨rfl, (isLane_vertex ..).trans isLaneStyle_memberStyle⟩

theorem filter_isLane_ofBox (b : Box) : (ofBox b).filter isLane = [laneOf b] := by
  have hchildren : (childrenOf b).filter isLane = [] := by
    rw [List.filter_eq_nil_iff]
    intro cell hcell
    exact ne_true_of_eq_false (of_mem_childrenOf hcell).2
  rw [ofBox_eq, List.filter_cons_of_pos (isLane_laneOf b), hchildren]

/-- The swimlanes of a document are those of the boxes, in order. -/
theorem filter_isLane_ofDiagram (diagram : Diagram) :
    (ofDiagram diagram).filter isLane = diagram.boxes.map laneOf := by
  have hlayers : [layer "0" none, layer "1" (some "0")].filter isLane = [] := rfl
  have hboxes : (diagram.boxes.flatMap ofBox).filter isLane = diagram.boxes.map laneOf := by
    rw [List.filter_flatMap, List.flatMap_congr fun b _ => filter_isLane_ofBox b]
    exact List.flatMap_pure_eq_map _ _
  have hedges : (diagram.edges.map ofEdge).filter isLane = [] := by
    rw [List.filter_eq_nil_iff]
    intro cell hcell
    obtain ⟨edge, _, rfl⟩ := List.mem_map.mp hcell
    exact ne_true_of_eq_false ((isLane_edge ..).trans (isLaneStyle_edgeStyle edge.kind))
  change ([layer "0" none, layer "1" (some "0")] ++ diagram.boxes.flatMap ofBox ++
    diagram.edges.map ofEdge).filter isLane = _
  rw [List.filter_append, List.filter_append, hlayers, hboxes, hedges, List.nil_append,
    List.append_nil]

/-- What lies in a swimlane is what its box holds, if no other box has its identifier. -/
theorem filter_parent_ofDiagram {diagram : Diagram} {b : Box} (hb : b ∈ diagram.boxes)
    (hnodup : (diagram.boxes.map (·.id)).Nodup) (hzero : b.id ≠ "0") (hone : b.id ≠ "1") :
    ((ofDiagram diagram).filter fun cell => cell.parent? = some b.id) = childrenOf b := by
  have hlayers : ([layer "0" none, layer "1" (some "0")].filter fun cell =>
      cell.parent? = some b.id) = [] := by
    simp [parent?, hzero.symm]
  have hedges : ((diagram.edges.map ofEdge).filter fun cell => cell.parent? = some b.id) = [] := by
    simp [List.filter_map, Function.comp_def, parent?, ofEdge, hone.symm]
  have hown : ((ofBox b).filter fun cell => cell.parent? = some b.id) = childrenOf b := by
    rw [ofBox_eq, List.filter_cons_of_neg (by simp [laneOf, parent?, hone.symm]),
      List.filter_eq_self]
    intro cell hcell
    exact decide_eq_true (of_mem_childrenOf hcell).1
  have hothers : ∀ boxes : List Box, b.id ∉ boxes.map (·.id) →
      ((boxes.flatMap ofBox).filter fun cell => cell.parent? = some b.id) = [] := by
    intro boxes hother
    rw [List.filter_eq_nil_iff]
    intro cell hcell
    obtain ⟨other, hmem, hcell⟩ := List.mem_flatMap.mp hcell
    rw [decide_eq_true_eq]
    rcases List.mem_cons.mp (ofBox_eq other ▸ hcell) with rfl | hchild
    · exact fun h => hone (Option.some.inj h).symm
    · rw [(of_mem_childrenOf hchild).1]
      exact fun h => hother (Option.some.inj h ▸ List.mem_map_of_mem hmem)
  obtain ⟨front, back, hboxes⟩ := List.append_of_mem hb
  rw [hboxes, List.map_append, List.map_cons, List.nodup_middle, List.nodup_cons,
    List.mem_append, not_or] at hnodup
  change (([layer "0" none, layer "1" (some "0")] ++ diagram.boxes.flatMap ofBox ++
    diagram.edges.map ofEdge).filter fun cell => cell.parent? = some b.id) = _
  rw [List.filter_append, List.filter_append, hlayers, hedges, hboxes, List.flatMap_append,
    List.flatMap_cons, List.filter_append, List.filter_append, hown, hothers front hnodup.1.1,
    hothers back hnodup.1.2]
  simp

/-- The first cell in the swimlane of a class starts below the header of its box. -/
theorem y?_head?_childrenOf (settings : LayoutSettings) (position : Nat) (record : ClassRecord) :
    (childrenOf (Grid.box settings position record)).head?.map y? =
      if (Grid.box settings position record).rows = [] then none
      else some (some (settings.headerHeight : Nat)) := by
  obtain ⟨name, attributes, methods⟩ := record
  cases attributes with
  | cons signature rest =>
      simp [childrenOf, Grid.box, Box.rowsOf, Grid.filter_rows, Grid.rows, ofRow, y?, Grid.row]
  | nil =>
      cases methods with
      | nil => simp [childrenOf, Grid.box, Box.rowsOf, Grid.rows]
      | cons signature rest =>
          simp [childrenOf, Grid.box, Box.rowsOf, Grid.filter_rows, Grid.rows, ofRow, y?, Grid.row,
            LayoutSettings.separatorBetween]

end Cell

/-! ## Documents -/

theorem map_id_boxes (settings : LayoutSettings) (position : Nat) (records : List ClassRecord) :
    (Grid.boxes settings position records).map (·.id) =
      (List.range' position records.length).map Grid.boxId := by
  induction records generalizing position with
  | nil => rfl
  | cons record rest ih =>
      rw [Grid.boxes, List.map_cons, ih, List.length_cons, List.range'_succ, List.map_cons]
      rfl

theorem nodup_map_id_boxes (settings : LayoutSettings) (records : List ClassRecord) :
    ((Grid.boxes settings 0 records).map (·.id)).Nodup := by
  rw [map_id_boxes]
  exact List.Nodup.map (numbered_injective "class") List.nodup_range'

/-- No box has the identifier of the page or of its layer. -/
theorem boxId_ne (position : Nat) : Grid.boxId position ≠ "0" ∧ Grid.boxId position ≠ "1" := by
  have hbox : Grid.boxId position = (CellId.box position .whole).text := by
    rw [CellId.text, BoxPart.text, String.append_empty]
  rw [hbox]
  exact ⟨fun h => absurd (@CellId.text_injective _ .page h) (by simp),
    fun h => absurd (@CellId.text_injective _ .layer h) (by simp)⟩

/-- Every swimlane declares the height of the header of its box. -/
def DeclaresHeaders (cells : List Cell) (boxes : List Box) : Prop :=
  List.Forall₂ (fun lane box => lane.startSize? = some box.headerHeight) (cells.filter Cell.isLane)
    boxes

/-- The first cell in every swimlane starts where the swimlane declares it. -/
def StartsBelowHeaders (cells : List Cell) : Prop :=
  ∀ lane ∈ cells.filter Cell.isLane, ∀ child ∈ Cell.firstChild? cells lane,
    child.y? = lane.startSize?

/-- What a document says of a box whose header is as high as the settings have it. -/
structure Cell.Heads (settings : LayoutSettings) (cells : List Cell) (lane : Cell) (box : Box) :
    Prop where
  id : lane.id = box.id
  startSize : lane.startSize? = some 26
  headerHeight : box.headerHeight = settings.headerHeight
  /-- There is a first cell if the box has rows, and it starts below the header. -/
  firstChild : (Cell.firstChild? cells lane).map Cell.y? =
    if box.rows = [] then none else some (some (settings.headerHeight : Nat))

theorem Cell.heads_laneOf {settings : LayoutSettings} {records : List ClassRecord}
    {diagram : Diagram} (hboxes : diagram.boxes = Grid.boxes settings 0 records) {b : Box}
    (hb : b ∈ diagram.boxes) : Cell.Heads settings (Cell.ofDiagram diagram) (Cell.laneOf b) b := by
  have hnodup := nodup_map_id_boxes settings records
  rw [← hboxes] at hnodup
  obtain ⟨position, record, rfl⟩ := Grid.exists_of_mem_boxes (hboxes ▸ hb)
  obtain ⟨hzero, hone⟩ := boxId_ne position
  have hchildren := Cell.filter_parent_ofDiagram hb hnodup hzero hone
  refine ⟨rfl, Cell.startSize?_laneOf _, rfl, ?_⟩
  rw [← Cell.y?_head?_childrenOf, ← hchildren]
  rfl

section

variable {settings : LayoutSettings} {cells : List Cell} {boxes : List Box}

theorem declaresHeaders_iff
    (h : List.Forall₂ (Cell.Heads settings cells) (cells.filter Cell.isLane) boxes) :
    DeclaresHeaders cells boxes ↔ settings.headerHeight = 26 ∨ boxes = [] := by
  rw [DeclaresHeaders]
  generalize cells.filter Cell.isLane = lanes at h ⊢
  induction h with
  | nil => simp
  | @cons lane box lanes boxes hlane _ ih =>
      rw [List.forall₂_cons, ih, hlane.startSize, hlane.headerHeight, Option.some.injEq]
      constructor
      · exact fun hdeclares => .inl (Fin.ext hdeclares.1.symm)
      · intro hheight
        have hkept := hheight.resolve_right (List.cons_ne_nil _ _)
        exact ⟨(congrArg Fin.val hkept).symm, .inl hkept⟩

theorem startsBelowHeaders_iff
    (h : List.Forall₂ (Cell.Heads settings cells) (cells.filter Cell.isLane) boxes) :
    StartsBelowHeaders cells ↔
      settings.headerHeight = 26 ∨ ∀ box ∈ boxes, box.rows = [] := by
  rw [StartsBelowHeaders]
  generalize cells.filter Cell.isLane = lanes at h ⊢
  induction h with
  | nil => simp
  | @cons lane box lanes boxes hlane _ ih =>
      have hfirst : (∀ child ∈ Cell.firstChild? cells lane, child.y? = lane.startSize?) ↔
          settings.headerHeight = 26 ∨ box.rows = [] := by
        have hchild := hlane.firstChild
        rw [hlane.startSize]
        split at hchild
        next hrows =>
          rw [Option.map_eq_none_iff.mp hchild]
          simp [hrows]
        next hrows =>
          obtain ⟨child, hfound, hy⟩ := Option.map_eq_some_iff.mp hchild
          have hsame : (settings.headerHeight : Nat) = 26 ↔ settings.headerHeight = 26 :=
            (@Fin.ext_iff _ settings.headerHeight 26).symm
          rw [hfound]
          simp [hy, hrows, hsame]
      rw [List.forall_mem_cons, List.forall_mem_cons, hfirst, ih, ← or_and_left]

end

/-- The document of a model has a swimlane for each box, in order. -/
theorem exists_document_heads {settings : LayoutSettings} (hsettings : settings.validate = .ok ())
    (style : Json.Style) (model : Model) :
    ∃ diagram text root, ∃ cells : List Cell, layout settings model = .ok diagram ∧
      diagram.boxes = Grid.boxes settings 0 model.classes.toList ∧
      generate settings .drawio style model = .ok text ∧ Xml.read text.toList = some root ∧
      (root.named "mxCell").map Cell.ofElement? = cells.map some ∧
      List.Forall₂ (Cell.Heads settings cells) (cells.filter Cell.isLane) diagram.boxes := by
  obtain ⟨diagram, hlayout, hboxes, _⟩ := Grid.exists_layout hsettings model
  have htext : generate settings .drawio style model = .ok (render diagram) := by
    rw [generate, hlayout]
    rfl
  have hread : Xml.read (render diagram).toList = some (root diagram) := by
    rw [render, String.toList_ofList, read_document _ (wellFormed_root diagram)]
  refine ⟨diagram, _, _, Cell.ofDiagram diagram, hlayout, hboxes, htext, hread, ?_, ?_⟩
  · rw [named_root, map_ofElement?_cells]
  · rw [Cell.filter_isLane_ofDiagram, List.forall₂_map_left_iff, List.forall₂_same]
    exact fun b hb => Cell.heads_laneOf hboxes hb

/-- In the document of a model every swimlane declares a height of 26, and the first cell in it
starts below a header as high as the settings have it. So the document declares the headers of the
layout exactly if the settings keep the height 26 or there is no class, and its cells start where
that is declared exactly if the settings keep it or there is no member. -/
theorem generate_drawio_headers_iff {settings : LayoutSettings}
    (hsettings : settings.validate = .ok ()) (style : Json.Style) (model : Model) :
    ∃ diagram text root, ∃ cells : List Cell, layout settings model = .ok diagram ∧
      generate settings .drawio style model = .ok text ∧ Xml.read text.toList = some root ∧
      (root.named "mxCell").map Cell.ofElement? = cells.map some ∧
      List.Forall₂ (Cell.Heads settings cells) (cells.filter Cell.isLane) diagram.boxes ∧
      (DeclaresHeaders cells diagram.boxes ↔ settings.headerHeight = 26 ∨ diagram.boxes = []) ∧
      (StartsBelowHeaders cells ↔
        settings.headerHeight = 26 ∨ ∀ box ∈ diagram.boxes, box.rows = []) := by
  obtain ⟨diagram, text, root, cells, hlayout, _, htext, hread, hcells, hheads⟩ :=
    exists_document_heads hsettings style model
  exact ⟨diagram, text, root, cells, hlayout, htext, hread, hcells, hheads,
    declaresHeaders_iff hheads, startsBelowHeaders_iff hheads⟩

/-- Headers of the height 26 above rows of another height. -/
theorem generate_drawio_headers_iff_lowRows :
    let settings := { LayoutSettings.default with memberHeight := 20 }
    let model := Model.ofParts [⟨"A", [], ["+f()"]⟩, ⟨"B", ["-int x"], ["#g()"]⟩] []
    settings.validate = .ok () ∧
      ∃ diagram text root, ∃ cells : List Cell, layout settings model = .ok diagram ∧
        generate settings .drawio .compact model = .ok text ∧
        Xml.read text.toList = some root ∧
        (root.named "mxCell").map Cell.ofElement? = cells.map some ∧
        DeclaresHeaders cells diagram.boxes ∧ StartsBelowHeaders cells := by
  intro settings model
  have hsettings : settings.validate = .ok () := rfl
  obtain ⟨diagram, text, root, cells, hlayout, htext, hread, hcells, _, hdeclares, hstarts⟩ :=
    generate_drawio_headers_iff hsettings .compact model
  exact ⟨hsettings, diagram, text, root, cells, hlayout, htext, hread, hcells,
    hdeclares.mpr (.inl rfl), hstarts.mpr (.inl rfl)⟩

/-- A header of the height 40: the swimlane declares 26, and the first row in it starts at 40. -/
theorem generate_drawio_headers_highHeader :
    let settings := { LayoutSettings.default with headerHeight := 40 }
    let model := Model.ofParts [⟨"A", ["+int x"], []⟩] []
    settings.validate = .ok () ∧
      ∃ diagram text root, ∃ cells : List Cell, ∃ box lane child,
        layout settings model = .ok diagram ∧
        generate settings .drawio .compact model = .ok text ∧
        Xml.read text.toList = some root ∧
        (root.named "mxCell").map Cell.ofElement? = cells.map some ∧
        diagram.boxes = [box] ∧ cells.filter Cell.isLane = [lane] ∧
        Cell.firstChild? cells lane = some child ∧ box.headerHeight = 40 ∧
        child.y? = some 40 ∧ lane.startSize? = some 26 := by
  intro settings model
  have hsettings : settings.validate = .ok () := rfl
  have hrecords : model.classes.toList = [⟨"A", ["+int x"], []⟩] :=
    (Model.toList_ofParts (by decide) (by decide) (by decide)).1
  obtain ⟨diagram, text, root, cells, hlayout, hboxes, htext, hread, hcells, hheads⟩ :=
    exists_document_heads hsettings .compact model
  rw [hrecords] at hboxes
  rw [hboxes] at hheads
  obtain ⟨lane, lanes, hlane, hrest, hlanes⟩ := List.forall₂_cons_right_iff.mp hheads
  rw [List.forall₂_nil_right_iff.mp hrest] at hlanes
  obtain ⟨child, hchild, hy⟩ := Option.map_eq_some_iff.mp hlane.firstChild
  exact ⟨hsettings, diagram, text, root, cells, _, lane, child, hlayout, htext, hread, hcells,
    hboxes, hlanes, hchild, rfl, hy, hlane.startSize⟩

end ClassDiagram.Drawio
