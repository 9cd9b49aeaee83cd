import ClassDiagram.Output.Format
import ClassDiagram.Proofs.Drawio.Document
import ClassDiagram.Proofs.Layout.Drawn

/-!
# References in draw.io documents

The cells of a document refer to each other by their identifiers: a cell to the one it lies in, and
an edge to those that it joins. In the document of a model no identifier stands for two cells, what
a cell lies in comes before it, and an edge joins the swimlanes of classes.
-/

namespace ClassDiagram

namespace Xml.Element

mutual

/-- The elements with a name, at any depth, in the order in which they start. -/
def named (name : String) : Element → List Element
  | node own attributes children =>
    (if own = name then [node own attributes children] else []) ++ namedAll name children

/-- The elements with a name in elements that follow each other. -/
def namedAll (name : String) : List Element → List Element
  | [] => []
  | element :: rest => named name element ++ namedAll name rest

end

theorem namedAll_eq_flatMap (name : String) (elements : List Element) :
    namedAll name elements = elements.flatMap (named name) := by
  induction elements with
  | nil => rfl
  | cons element rest ih => rw [namedAll, ih, List.flatMap_cons]

end Xml.Element

namespace Drawio

open Xml

namespace Cell

/-- The identifier of a cell. -/
def id : Cell → String
  | layer id _ => id
  | vertex id .. => id
  | edge id .. => id

/-- What a cell lies in. -/
def parent? : Cell → Option String
  | layer _ parent? => parent?
  | vertex _ _ _ parent .. => some parent
  | edge _ _ _ parent .. => some parent

/-- What an edge joins. -/
def ends : Cell → List String
  | edge _ _ _ _ source target _ _ => [source, target]
  | _ => []

/-- Whether a cell is the swimlane of a class. -/
def isSwimlane : Cell → Bool
  | vertex _ _ style .. => style = classStyle
  | _ => false

/-! ## Parents -/

/-- Every cell lies in one that is known or stands in front of it. -/
def Rooted (known : List String) : List Cell → Prop
  | [] => True
  | cell :: rest => (∀ parent ∈ cell.parent?, parent ∈ known) ∧ Rooted (known ++ [cell.id]) rest

theorem Rooted.append {known : List String} {first second : List Cell}
    (hfirst : Rooted known first) (hsecond : Rooted (known ++ first.map id) second) :
    Rooted known (first ++ second) := by
  induction first generalizing known with
  | nil => rwa [List.map_nil, List.append_nil] at hsecond
  | cons cell rest ih =>
      refine ⟨hfirst.1, ih hfirst.2 ?_⟩
      rwa [List.append_assoc, List.singleton_append]

theorem rooted_of_forall {known : List String} {cells : List Cell}
    (h : ∀ cell ∈ cells, ∀ parent ∈ cell.parent?, parent ∈ known) : Rooted known cells := by
  induction cells generalizing known with
  | nil => trivial
  | cons cell rest ih =>
      refine ⟨h cell List.mem_cons_self, ih fun other hother parent hparent => ?_⟩
      exact List.mem_append_left _ (h other (List.mem_cons_of_mem _ hother) parent hparent)

theorem Rooted.parent_mem {known : List String} {before after : List Cell} {cell : Cell}
    (h : Rooted known (before ++ cell :: after)) {parent : String}
    (hparent : parent ∈ cell.parent?) : parent ∈ known ++ before.map id := by
  induction before generalizing known with
  | nil => rw [List.map_nil, List.append_nil]; exact h.1 parent hparent
  | cons first rest ih =>
      have hrest := ih h.2
      rwa [List.append_assoc, List.singleton_append] at hrest

theorem rooted_ofBox {known : List String} (hlayer : "1" ∈ known) (b : Box) :
    Rooted known (ofBox b) := by
  refine Rooted.append (Rooted.append ⟨?_, rooted_of_forall ?_⟩ (rooted_of_forall ?_))
    (rooted_of_forall ?_)
  · rintro parent ⟨⟩
    exact hlayer
  all_goals
    intro cell hcell parent hparent
    obtain ⟨_, _, rfl⟩ := List.mem_map.mp hcell
    obtain rfl := Option.some.inj hparent
    simp [id]

theorem rooted_flatMap_ofBox {known : List String} (hlayer : "1" ∈ known) (boxes : List Box) :
    Rooted known (boxes.flatMap ofBox) := by
  induction boxes generalizing known with
  | nil => trivial
  | cons b rest ih => exact (rooted_ofBox hlayer b).append (ih (List.mem_append_left _ hlayer))

theorem rooted_ofDiagram (diagram : Diagram) : Rooted [] (ofDiagram diagram) := by
  refine ⟨nofun, ?_, ?_⟩
  · rintro parent ⟨⟩
    exact List.mem_singleton_self "0"
  · have hlayer : "1" ∈ [] ++ [id (.layer "0" none)] ++ [id (.layer "1" (some "0"))] := by decide
    refine (rooted_flatMap_ofBox hlayer diagram.boxes).append (rooted_of_forall ?_)
    intro cell hcell parent hparent
    obtain ⟨_, _, rfl⟩ := List.mem_map.mp hcell
    obtain rfl := Option.some.inj hparent
    exact List.mem_append_left _ hlayer

/-! ## Identifiers -/

theorem map_id_ofRow (b : Box) (kind : RowKind) :
    ((b.rows.filter (·.kind = kind)).map (ofRow b)).map id = (b.rowsOf kind).map (·.id) := by
  rw [List.map_map]
  rfl

theorem map_id_ofBox (settings : LayoutSettings) (position : Nat) (record : ClassRecord) :
    (ofBox (Grid.box settings position record)).map id =
      ((BoxPart.ofRecord record).map (CellId.box position)).map CellId.text := by
  obtain ⟨hattributes, hmethods⟩ := Grid.map_id_rowsOf_box settings position record
  have hseparator : ((Grid.box settings position record).separator.toList.map fun separator =>
      separator.id) = ((if 0 < record.attributes.length ∧ 0 < record.methods.length then
        [BoxPart.separator] else []).map (CellId.box position)).map CellId.text := by
    dsimp only [Grid.box]
    split <;> rfl
  have hid : (Grid.box settings position record).id = Grid.boxId position := rfl
  rw [ofBox, List.map_append, List.map_append, List.map_cons, map_id_ofRow, map_id_ofRow,
    hattributes, hmethods, BoxPart.ofRecord, List.map_append, List.map_append, List.map_append,
    List.map_append, ← hseparator]
  simp [Function.comp_def, CellId.text, BoxPart.text, id, hid, String.append_assoc]

theorem map_id_flatMap_ofBox (settings : LayoutSettings) (position : Nat)
    (records : List ClassRecord) :
    ((Grid.boxes settings position records).flatMap ofBox).map id =
      (CellId.ofRecords position records).map CellId.text := by
  induction records generalizing position with
  | nil => rfl
  | cons record rest ih =>
      rw [Grid.boxes, List.flatMap_cons, List.map_append, map_id_ofBox, ih, CellId.ofRecords,
        List.map_append]

/-- The cells of the diagram of a model have the identifiers that its classes, members and
relationships are given. -/
theorem map_id_ofDiagram {settings : LayoutSettings} {model : Model} {diagram : Diagram}
    (hplaced : ∀ relationship ∈ model.relationships.toList,
      Grid.IsPlaced model diagram.boxes.toArray relationship)
    (hboxes : diagram.boxes = Grid.boxes settings 0 model.classes.toList)
    (hedges : diagram.edges =
      Grid.edges model diagram.boxes.toArray 0 model.relationships.toList) :
    (ofDiagram diagram).map id = (CellId.ofModel model).map CellId.text := by
  have hids := Grid.map_id_edges hplaced 0
  rw [← hedges, Array.length_toList, ← List.range_eq_range'] at hids
  have hdrawn : (diagram.edges.map ofEdge).map id =
      ((List.range model.relationships.size).map CellId.edge).map CellId.text := by
    rw [List.map_map, List.map_map]
    exact hids
  rw [ofDiagram, List.map_append, hdrawn, hboxes, List.map_cons, List.map_cons,
    map_id_flatMap_ofBox, CellId.ofModel, List.map_append, List.map_cons, List.map_cons]
  rfl

/-! ## Edges -/

/-- Only the cell of an edge joins anything. -/
theorem exists_edge_of_mem_ends {diagram : Diagram} {cell : Cell} (hcell : cell ∈ ofDiagram diagram)
    {name : String} (hname : name ∈ cell.ends) :
    ∃ edge ∈ diagram.edges, name = edge.source ∨ name = edge.target := by
  simp only [ofDiagram, ofBox, List.cons_append, List.mem_cons, List.mem_append, List.mem_flatMap,
    List.mem_map] at hcell
  rcases hcell with rfl | rfl | ⟨b, _, rfl | (⟨_, _, rfl⟩ | ⟨_, _, rfl⟩) | ⟨_, _, rfl⟩⟩ |
    ⟨edge, hedge, rfl⟩
  case inr.inr.inr => exact ⟨edge, hedge, by simpa [ofEdge, ends] using hname⟩
  all_goals exact absurd hname List.not_mem_nil

/-- Every box of a diagram has a swimlane. -/
theorem exists_swimlane {diagram : Diagram} {b : Box} (hb : b ∈ diagram.boxes) :
    ∃ swimlane ∈ ofDiagram diagram, swimlane.isSwimlane = true ∧ swimlane.id = b.id := by
  have hown : ∃ swimlane ∈ ofBox b, swimlane.isSwimlane = true ∧ swimlane.id = b.id :=
    ⟨_, List.mem_cons_self, by simp [isSwimlane], rfl⟩
  obtain ⟨swimlane, hswimlane, hfacts⟩ := hown
  refine ⟨swimlane, ?_, hfacts⟩
  rw [ofDiagram, List.cons_append, List.cons_append]
  exact List.mem_cons_of_mem _ (List.mem_cons_of_mem _
    (List.mem_append_left _ (List.mem_flatMap.mpr ⟨b, hb, hswimlane⟩)))

end Cell

/-! ## Documents -/

theorem named_of_mem_boxCells {b : Box} {element : Element} (h : element ∈ boxCells b) :
    element.named "mxCell" = [element] := by
  simp only [boxCells, List.cons_append, List.mem_cons, List.mem_append, List.mem_map] at h
  rcases h with rfl | (⟨_, _, rfl⟩ | ⟨_, _, rfl⟩) | ⟨_, _, rfl⟩ <;> rfl

theorem named_of_mem_cells {diagram : Diagram} {element : Element} (h : element ∈ cells diagram) :
    element.named "mxCell" = [element] := by
  simp only [cells, List.cons_append, List.mem_cons, List.mem_append, List.mem_flatMap,
    List.mem_map] at h
  rcases h with rfl | rfl | ⟨b, _, hb⟩ | ⟨edge, _, rfl⟩
  · rfl
  · rfl
  · exact named_of_mem_boxCells hb
  · rfl

/-- The cells of a document are all that it has of this kind: none lies inside of another. -/
theorem named_root (diagram : Diagram) : (root diagram).named "mxCell" = cells diagram := by
  have hcells : Element.namedAll "mxCell" (cells diagram) = cells diagram := by
    rw [Element.namedAll_eq_flatMap,
      List.flatMap_congr fun element helement => named_of_mem_cells helement]
    exact List.flatMap_singleton' _
  simp [root, Element.named, Element.namedAll, hcells]

/-- In the document of a model each class, member, separator and relationship has a cell with the
identifier that it is given; no two cells have the same identifier; every cell lies in one that
comes before it; and every edge joins swimlanes of classes. -/
theorem generate_drawio_linked {settings : LayoutSettings} {model : Model}
    (hsettings : settings.validate = .ok ()) (hmodel : model.Reachable) (style : Json.Style) :
    ∃ text root, ∃ cells : List Cell, generate settings .drawio style model = .ok text ∧
      Xml.read text.toList = some root ∧
      (root.named "mxCell").map Cell.ofElement? = cells.map some ∧
      cells.map Cell.id = (CellId.ofModel model).map CellId.text ∧
      (cells.map Cell.id).Nodup ∧
      (∀ before cell after, cells = before ++ cell :: after →
        ∀ parent ∈ cell.parent?, parent ∈ before.map Cell.id) ∧
      ∀ cell ∈ cells, ∀ name ∈ cell.ends,
        ∃ swimlane ∈ cells, swimlane.isSwimlane = true ∧ swimlane.id = name := by
  obtain ⟨diagram, hlayout, hboxes, hedges, hplaced⟩ :=
    Grid.exists_layout_placed hsettings hmodel.consistent
  have htext : generate settings .drawio style model = .ok (render diagram) := by
    rw [generate, hlayout]
    rfl
  have hread : Xml.read (render diagram).toList = some (root diagram) := by
    rw [render, String.toList_ofList, read_document _ (wellFormed_root diagram)]
  have hids := Cell.map_id_ofDiagram hplaced hboxes hedges
  refine ⟨_, _, Cell.ofDiagram diagram, htext, hread, ?_, hids, ?_, ?_, ?_⟩
  · rw [named_root, map_ofElement?_cells]
  · rw [hids]
    exact (CellId.nodup_ofModel model).map CellId.text_injective
  · intro before cell after hcells parent hparent
    have hrooted := Cell.rooted_ofDiagram diagram
    rw [hcells] at hrooted
    exact hrooted.parent_mem hparent
  · intro cell hcell name hname
    obtain ⟨edge, hedge, hend⟩ := Cell.exists_edge_of_mem_ends hcell hname
    obtain ⟨_, _, source, hsource, target, htarget, rfl⟩ :=
      Grid.exists_of_mem_edges (hedges ▸ hedge)
    rcases hend with rfl | rfl
    · exact Cell.exists_swimlane (List.mem_toArray.mp hsource)
    · exact Cell.exists_swimlane (List.mem_toArray.mp htarget)

/-- A class with both sections, and one that it refers to. -/
theorem generate_drawio_linked_two_classes :
    let records : List ClassRecord := [⟨"A", ["-B b"], ["+f()", "+g()"]⟩, ⟨"B", [], []⟩]
    let model := (Model.empty.take (.build records [⟨"A", "B", .composition⟩])).1
    LayoutSettings.default.validate = .ok () ∧ model.Reachable ∧
      ∃ text root, ∃ cells : List Cell, generate .default .drawio .compact model = .ok text ∧
        Xml.read text.toList = some root ∧
        (root.named "mxCell").map Cell.ofElement? = cells.map some ∧
        cells.map Cell.id = ["0", "1", "class0", "class0_attr0", "class0_separator",
          "class0_method0", "class0_method1", "class1", "rel0"] ∧
        (cells.map Cell.id).Nodup := by
  intro records model
  have hsettings : LayoutSettings.default.validate = .ok () := rfl
  have hmodel : model.Reachable := .take .empty _
  have hparts : model.classes.toList = records ∧
      model.relationships.toList = [⟨"A", "B", .composition⟩] :=
    Model.toList_ofParts (by decide) (by decide) (by decide)
  obtain ⟨text, root, cells, htext, hread, hcells, hids, hnodup, _⟩ :=
    generate_drawio_linked hsettings hmodel .compact
  refine ⟨hsettings, hmodel, text, root, cells, htext, hread, hcells, ?_, hnodup⟩
  rw [hids, CellId.ofModel, ← Array.length_toList, hparts.1, hparts.2]
  decide +kernel

end Drawio

end ClassDiagram
