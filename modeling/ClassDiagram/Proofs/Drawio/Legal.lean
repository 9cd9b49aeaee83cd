import ClassDiagram.Output.Format
import ClassDiagram.Proofs.Drawio.Document
import ClassDiagram.Proofs.Layout.Grid
import ClassDiagram.Proofs.Xml.Legal

/-!
# Legal characters in draw.io documents

The illegal characters of the document of a model are those of its class names and of its members,
in the order of the model. Nothing else that stands in the document can be illegal: what is fixed is
not, numbers are written in digits, and the layout makes the identifiers of words and numbers.
-/

namespace ClassDiagram.Drawio

open Xml

/-! ## Cells -/

theorem illegal_toDigits (n : Nat) : illegal (Nat.toDigits 10 n) = [] := by
  rw [illegal_eq_nil_iff]
  intro c hc
  exact isLegal_of_isDigit (Text.isDigit_of_mem_toDigits hc)

/-- The styles of the cells of a box, each written in three parts. -/
theorem illegal_styles :
    illegal classStyle.toList = [] ∧ illegal memberStyle.toList = [] ∧
      illegal separatorStyle.toList = [] := by
  have hparts : ∀ {a b c : List Char}, illegal a = [] → illegal b = [] → illegal c = [] →
      illegal (String.ofList a ++ String.ofList b ++ String.ofList c).toList = [] := by
    intro a b c ha hb hc
    exact illegal_toList_append (illegal_toList_append (illegal_ofList ha) (illegal_ofList hb))
      (illegal_ofList hc)
  refine ⟨hparts ?_ ?_ ?_, hparts ?_ ?_ ?_, hparts ?_ ?_ ?_⟩ <;> decide +kernel

theorem illegal_edgeStyle (kind : RelationshipKind) : illegal (edgeStyle kind).toList = [] := by
  cases kind <;> exact illegal_ofList (by decide +kernel)

theorem illegalIn_boxCell (box : Box) :
    illegalIn (boxCell box).values = illegal box.id.toList ++ illegal box.name.toList := by
  simp (disch := decide) [boxCell, Element.values, Element.valuesOfAll, illegalIn_cons,
    illegal_toDigits, illegal_styles, illegal_cons_of_isLegal]

theorem illegalIn_childCell (box : Box) (id value style : String) (y height : Nat)
    (hstyle : illegal style.toList = []) :
    illegalIn (childCell box id value style y height).values =
      illegal id.toList ++ illegal value.toList ++ illegal box.id.toList := by
  simp (disch := decide) [childCell, Element.values, Element.valuesOfAll, illegalIn_cons,
    illegal_toDigits, hstyle, illegal_cons_of_isLegal]

theorem illegalIn_edgeCell (edge : Edge) :
    illegalIn (edgeCell edge).values =
      illegal edge.id.toList ++ illegal edge.source.toList ++ illegal edge.target.toList := by
  simp (disch := decide) [edgeCell, pointCell, Element.values, Element.valuesOfAll, illegalIn_cons,
    illegal_toDigits, illegal_edgeStyle, illegal_cons_of_isLegal]

/-! ## Diagrams -/

/-- A box with legal identifiers. -/
structure HasLegalIds (box : Box) : Prop where
  own : illegal box.id.toList = []
  rows : ∀ row ∈ box.rows, illegal row.id.toList = []
  separator : ∀ separator ∈ box.separator.toList, illegal separator.id.toList = []

theorem illegalIn_rowCells {box : Box} (h : HasLegalIds box) (kind : RowKind) :
    ((box.rowsOf kind).map (rowCell box)).flatMap (illegalIn ·.values) =
      illegalIn ((box.rowsOf kind).map (·.text)) := by
  rw [illegalIn, List.flatMap_map, List.flatMap_map]
  apply List.flatMap_congr
  intro row hrow
  rw [rowCell, illegalIn_childCell _ _ _ _ _ _ illegal_styles.2.1, h.own, List.append_nil,
    h.rows row (List.mem_of_mem_filter hrow), List.nil_append]

theorem illegalIn_separatorCells {box : Box} (h : HasLegalIds box) :
    (box.separator.toList.map (separatorCell box)).flatMap (illegalIn ·.values) = [] := by
  rw [List.flatMap_map, List.flatMap_eq_nil_iff]
  intro separator hseparator
  rw [separatorCell, illegalIn_childCell _ _ _ _ _ _ illegal_styles.2.2, h.own,
    h.separator separator hseparator]
  rfl

theorem illegalIn_boxCells {box : Box} (h : HasLegalIds box) :
    (boxCells box).flatMap (illegalIn ·.values) =
      illegalIn (box.name :: (box.rowsOf .attributes ++ box.rowsOf .methods).map (·.text)) := by
  rw [boxCells, List.flatMap_append, List.flatMap_append, List.flatMap_cons, illegalIn_boxCell,
    illegalIn_rowCells h, illegalIn_separatorCells h, illegalIn_rowCells h, h.own, List.nil_append,
    List.append_nil, List.map_append, illegalIn_cons, illegalIn_append, List.append_assoc]

/-- An edge with legal identifiers. -/
structure JoinsLegalIds (edge : Edge) : Prop where
  own : illegal edge.id.toList = []
  source : illegal edge.source.toList = []
  target : illegal edge.target.toList = []

theorem illegalIn_edgeCells {edges : List Edge} (h : ∀ edge ∈ edges, JoinsLegalIds edge) :
    (edges.map edgeCell).flatMap (illegalIn ·.values) = [] := by
  rw [List.flatMap_map, List.flatMap_eq_nil_iff]
  intro edge hedge
  obtain ⟨hown, hsource, htarget⟩ := h edge hedge
  rw [illegalIn_edgeCell, hown, hsource, htarget]
  rfl

theorem illegalIn_cells {diagram : Diagram} (hboxes : ∀ box ∈ diagram.boxes, HasLegalIds box)
    (hedges : ∀ edge ∈ diagram.edges, JoinsLegalIds edge) :
    (cells diagram).flatMap (illegalIn ·.values) = diagram.boxes.flatMap fun box =>
      illegalIn (box.name :: (box.rowsOf .attributes ++ box.rowsOf .methods).map (·.text)) := by
  have hlayers : illegalIn (Element.node "mxCell" [("id", "0")] []).values = [] ∧
      illegalIn (Element.node "mxCell" [("id", "1"), ("parent", "0")] []).values = [] := by
    decide +kernel
  rw [cells, List.flatMap_append, illegalIn_edgeCells hedges, List.append_nil, List.flatMap_cons,
    List.flatMap_cons, hlayers.1, hlayers.2, List.nil_append, List.nil_append, List.flatMap_assoc]
  exact List.flatMap_congr fun box hbox => illegalIn_boxCells (hboxes box hbox)

/-- The document of a diagram with legal identifiers has the illegal characters of the names and
rows of its boxes. -/
theorem illegal_render {diagram : Diagram} (hboxes : ∀ box ∈ diagram.boxes, HasLegalIds box)
    (hedges : ∀ edge ∈ diagram.edges, JoinsLegalIds edge) :
    illegal (render diagram).toList = diagram.boxes.flatMap fun box =>
      illegalIn (box.name :: (box.rowsOf .attributes ++ box.rowsOf .methods).map (·.text)) := by
  have henvelope : illegalIn (root diagram).values =
      illegalIn ((cells diagram).flatMap (·.values)) := by
    simp (disch := decide) [root, Element.values, Element.valuesOfAll,
      Element.valuesOfAll_eq_flatMap, illegalIn_cons, illegal_toDigits, illegal_cons_of_isLegal]
  rw [render, String.toList_ofList, illegal_document _ (wellFormed_root diagram), henvelope,
    ← illegalIn_cells hboxes hedges]
  exact List.flatMap_assoc

/-! ## Models -/

theorem illegal_numbered {stem : String} (hstem : illegal stem.toList = []) (n : Nat) :
    illegal (stem ++ toString n).toList = [] := by
  apply illegal_toList_append hstem
  rw [Nat.toString_eq_repr, Nat.toList_repr, illegal_toDigits]

theorem hasLegalIds_box (settings : LayoutSettings) (position : Nat) (record : ClassRecord) :
    HasLegalIds (Grid.box settings position record) := by
  have hown : illegal (Grid.boxId position).toList = [] := illegal_numbered (by decide) position
  have hpart : ∀ part : String, illegal part.toList = [] →
      illegal (Grid.boxId position ++ part).toList = [] := fun _ => illegal_toList_append hown
  refine ⟨hown, fun row hrow => ?_, fun separator hseparator => ?_⟩
  · obtain ⟨part, hlegal, n, hid⟩ : ∃ part : String, illegal part.toList = [] ∧
        ∃ n : Nat, row.id = Grid.boxId position ++ part ++ toString n := by
      rcases List.mem_append.mp hrow with hrow | hrow
      · exact ⟨"_attr", by decide, (Grid.mem_rows hrow).2⟩
      · exact ⟨"_method", by decide, (Grid.mem_rows hrow).2⟩
    rw [hid]
    exact illegal_numbered (hpart part hlegal) n
  · dsimp only [Grid.box] at hseparator
    split at hseparator
    · rw [List.mem_singleton.mp hseparator]
      exact hpart _ (by decide)
    · exact absurd hseparator List.not_mem_nil

theorem hasLegalIds_of_mem_boxes {settings : LayoutSettings} {position : Nat}
    {records : List ClassRecord} {box : Box} (h : box ∈ Grid.boxes settings position records) :
    HasLegalIds box := by
  obtain ⟨p, record, rfl⟩ := Grid.exists_of_mem_boxes h
  exact hasLegalIds_box settings p record

/-- What the document of a model has of illegal characters, it has from names and members. -/
theorem exists_generate_drawio {settings : LayoutSettings} (hsettings : settings.validate = .ok ())
    (style : Json.Style) (model : Model) :
    ∃ text, generate settings .drawio style model = .ok text ∧
      illegal text.toList = model.classes.toList.flatMap fun record =>
        illegal record.name.toList ++ (record.attributes ++ record.methods).flatMap fun member =>
          illegal (Visibility.normalize member.toList) := by
  obtain ⟨diagram, hlayout, hboxes, hedges, _⟩ := Grid.exists_layout hsettings model
  have hlegal : ∀ box ∈ diagram.boxes, HasLegalIds box := by
    intro box hbox
    exact hasLegalIds_of_mem_boxes (hboxes ▸ hbox)
  have hjoins : ∀ edge ∈ diagram.edges, JoinsLegalIds edge := by
    intro edge hedge
    rw [hedges] at hedge
    obtain ⟨n, relationship, source, hsource, target, htarget, rfl⟩ :=
      Grid.exists_of_mem_edges hedge
    exact ⟨illegal_numbered (by decide) n, (hlegal source (List.mem_toArray.mp hsource)).own,
      (hlegal target (List.mem_toArray.mp htarget)).own⟩
  refine ⟨render diagram, ?_, ?_⟩
  · rw [generate, hlayout]
    rfl
  · rw [illegal_render hlegal hjoins, hboxes]
    apply Grid.flatMap_boxes
    intro position record
    rw [Grid.map_text_rowsOf_box, illegalIn_cons, illegalIn, List.flatMap_map]
    simp only [String.toList_ofList]
    rfl

end ClassDiagram.Drawio
