import ClassDiagram.Layout.Grid
import Mathlib.Data.List.Forall2

/-!
# What the grid places

A box shows the name and the members of its class, each member in the section it belongs to, and
the boxes follow the classes of the model. Identifiers are a fixed stem and a number, and an edge
joins boxes that are placed.
-/

namespace ClassDiagram.Grid

/-! ## Rows -/

theorem mem_rows {kind : RowKind} {stem : String} {number top height : Nat}
    {signatures : List String} {row : Row}
    (h : row ∈ rows kind stem number top height signatures) :
    row.kind = kind ∧ ∃ n : Nat, row.id = stem ++ toString n := by
  induction signatures generalizing number top with
  | nil => exact absurd h List.not_mem_nil
  | cons signature rest ih =>
      rcases List.mem_cons.mp h with rfl | hrest
      · exact ⟨rfl, number, rfl⟩
      · exact ih hrest

/-- The rows of a section belong to it. -/
theorem filter_rows (kind other : RowKind) (stem : String) (number top height : Nat)
    (signatures : List String) :
    (rows kind stem number top height signatures).filter (·.kind = other) =
      if kind = other then rows kind stem number top height signatures else [] := by
  split
  next heq =>
    rw [List.filter_eq_self]
    intro row hrow
    exact decide_eq_true ((mem_rows hrow).1.trans heq)
  next hne =>
    rw [List.filter_eq_nil_iff]
    intro row hrow
    rw [(mem_rows hrow).1, decide_eq_true_eq]
    exact hne

theorem map_kind_text_rows (kind : RowKind) (stem : String) (number top height : Nat)
    (signatures : List String) :
    (rows kind stem number top height signatures).map (fun row => (row.kind, row.text)) =
      signatures.map fun signature =>
        (kind, String.ofList (Visibility.normalize signature.toList)) := by
  induction signatures generalizing number top with
  | nil => rfl
  | cons signature rest ih =>
      rw [rows, List.map_cons, ih, List.map_cons]
      rfl

theorem map_text_rows (kind : RowKind) (stem : String) (number top height : Nat)
    (signatures : List String) :
    (rows kind stem number top height signatures).map (·.text) =
      signatures.map fun signature => String.ofList (Visibility.normalize signature.toList) := by
  have hrows := map_kind_text_rows kind stem number top height signatures
  simpa only [List.map_map, Function.comp_def] using congrArg (List.map Prod.snd) hrows

theorem map_id_rows (kind : RowKind) (stem : String) (number top height : Nat)
    (signatures : List String) :
    (rows kind stem number top height signatures).map (·.id) =
      (List.range' number signatures.length).map fun n => stem ++ toString n := by
  induction signatures generalizing number top with
  | nil => rfl
  | cons signature rest ih =>
      rw [rows, List.map_cons, ih, List.length_cons, List.range'_succ, List.map_cons]
      rfl

/-- What is said of the row of each member is said of all rows of a section. -/
theorem forall₂_rows {α : Type} {f : α → String} {P : Row → α → Prop} {kind : RowKind}
    {height : Nat} {members : List α}
    (h : ∀ member ∈ members, ∀ id y, P (row id kind (f member) y height) member) (stem : String)
    (number top : Nat) :
    List.Forall₂ P (rows kind stem number top height (members.map f)) members := by
  induction members generalizing number top with
  | nil => exact .nil
  | cons member members ih =>
      obtain ⟨hmember, hmembers⟩ := List.forall_mem_cons.mp h
      exact .cons (hmember _ _) (ih hmembers _ _)

/-! ## Boxes -/

/-- A box shows the attributes and the methods of its class. -/
theorem map_text_rowsOf_box (settings : LayoutSettings) (position : Nat) (record : ClassRecord) :
    ((box settings position record).rowsOf .attributes ++
        (box settings position record).rowsOf .methods).map (·.text) =
      (record.attributes ++ record.methods).map fun member =>
        String.ofList (Visibility.normalize member.toList) := by
  simp [box, Box.rowsOf, filter_rows, map_text_rows]

/-- The rows of a section are numbered from zero. -/
theorem map_id_rowsOf_box (settings : LayoutSettings) (position : Nat) (record : ClassRecord) :
    ((box settings position record).rowsOf .attributes).map (·.id) =
        (List.range record.attributes.length).map (fun n =>
          boxId position ++ "_attr" ++ toString n) ∧
      ((box settings position record).rowsOf .methods).map (·.id) =
        (List.range record.methods.length).map fun n =>
          boxId position ++ "_method" ++ toString n := by
  simp [box, Box.rowsOf, filter_rows, map_id_rows, List.range_eq_range']

/-- The rows of a box are those of its members, section by section and in order. -/
theorem forall₂_rowsOf_box {α : Type} {f : α → String} {P : Row → α → Prop} {record : ClassRecord}
    {attributes methods : List α} (hattributes : record.attributes = attributes.map f)
    (hmethods : record.methods = methods.map f)
    (h : ∀ member ∈ attributes ++ methods, ∀ id kind y height,
      P (row id kind (f member) y height) member)
    (settings : LayoutSettings) (position : Nat) :
    List.Forall₂ P ((box settings position record).rowsOf .attributes) attributes ∧
      List.Forall₂ P ((box settings position record).rowsOf .methods) methods := by
  simp only [Box.rowsOf, box, List.filter_append, filter_rows, reduceCtorEq, if_true, if_false,
    List.append_nil, List.nil_append, hattributes, hmethods]
  constructor
  · exact forall₂_rows (fun member hmember id y =>
      h member (List.mem_append_left _ hmember) id _ y _) _ _ _
  · exact forall₂_rows (fun member hmember id y =>
      h member (List.mem_append_right _ hmember) id _ y _) _ _ _

theorem exists_of_mem_boxes {settings : LayoutSettings} {position : Nat}
    {records : List ClassRecord} {b : Box} (h : b ∈ boxes settings position records) :
    ∃ p record, b = box settings p record := by
  induction records generalizing position with
  | nil => exact absurd h List.not_mem_nil
  | cons record rest ih =>
      rcases List.mem_cons.mp h with rfl | hrest
      · exact ⟨position, record, rfl⟩
      · exact ih hrest

/-- What is said of boxes regardless of their positions is said of their classes. -/
theorem flatMap_boxes {α : Type} {settings : LayoutSettings} {f : Box → List α}
    {g : ClassRecord → List α} (h : ∀ p record, f (box settings p record) = g record)
    (position : Nat) (records : List ClassRecord) :
    (boxes settings position records).flatMap f = records.flatMap g := by
  induction records generalizing position with
  | nil => rfl
  | cons record rest ih => rw [boxes, List.flatMap_cons, List.flatMap_cons, h, ih]

theorem getElem?_boxes (settings : LayoutSettings) (position : Nat) (records : List ClassRecord)
    (i : Nat) :
    (boxes settings position records)[i]? = records[i]?.map (box settings (position + i)) := by
  induction records generalizing position i with
  | nil => rfl
  | cons record rest ih =>
      cases i with
      | zero => rfl
      | succ i =>
          rw [boxes, List.getElem?_cons_succ, ih, List.getElem?_cons_succ, Nat.add_right_comm]
          rfl

theorem mem_boxes_iff {settings : LayoutSettings} {records : List ClassRecord} {b : Box} :
    b ∈ boxes settings 0 records ↔ ∃ i record, records[i]? = some record ∧
      b = box settings i record := by
  simp only [List.mem_iff_getElem?, getElem?_boxes, Option.map_eq_some_iff, Nat.zero_add]
  exact exists_congr fun i => exists_congr fun record => and_congr_right fun _ => eq_comm

theorem map_name_boxes (settings : LayoutSettings) (position : Nat) (records : List ClassRecord) :
    (boxes settings position records).map (·.name) = records.map (·.name) := by
  apply List.ext_getElem?
  intro i
  rw [List.getElem?_map, getElem?_boxes, Option.map_map, List.getElem?_map]
  rfl

/-! ## Edges -/

/-- The box of the class with a name, where the edges look for it. -/
def boxOf? (model : Model) (placed : Array Box) (name : String) : Option Box :=
  (model.position? name).bind fun i => placed[i]?

/-- Both ends of a relationship have a box, so that it is drawn. -/
def IsPlaced (model : Model) (placed : Array Box) (relationship : Relationship) : Prop :=
  ∃ source target, boxOf? model placed relationship.source = some source ∧
    boxOf? model placed relationship.target = some target

theorem edges_of_isPlaced {model : Model} {placed : Array Box} {relationship : Relationship}
    {source target : Box} (hsource : boxOf? model placed relationship.source = some source)
    (htarget : boxOf? model placed relationship.target = some target) (number : Nat)
    (rest : List Relationship) :
    edges model placed number (relationship :: rest) =
      edge number relationship source target :: edges model placed (number + 1) rest := by
  rw [boxOf?] at hsource htarget
  simp only [edges, hsource, htarget]

section

variable {model : Model} {placed : Array Box} {relationships : List Relationship}
variable (hplaced : ∀ relationship ∈ relationships, IsPlaced model placed relationship)

include hplaced

/-- If all relationships can be drawn, no number is left out. -/
theorem map_id_edges (number : Nat) :
    (edges model placed number relationships).map (·.id) =
      (List.range' number relationships.length).map fun n => "rel" ++ toString n := by
  induction relationships generalizing number with
  | nil => rfl
  | cons relationship rest ih =>
      obtain ⟨source, target, hsource, htarget⟩ := hplaced relationship List.mem_cons_self
      have hrest := ih (fun other hother => hplaced other (List.mem_cons_of_mem _ hother))
      rw [edges_of_isPlaced hsource htarget, List.map_cons, hrest, List.length_cons,
        List.range'_succ, List.map_cons]
      rfl

end

/-- An edge joins the boxes that are found for the ends of a relationship. -/
theorem exists_boxOf?_of_mem_edges {model : Model} {placed : Array Box} {number : Nat}
    {relationships : List Relationship} {e : Edge}
    (h : e ∈ edges model placed number relationships) :
    ∃ n relationship source target, boxOf? model placed relationship.source = some source ∧
      boxOf? model placed relationship.target = some target ∧
      e = edge n relationship source target := by
  induction relationships generalizing number with
  | nil => exact absurd h List.not_mem_nil
  | cons relationship rest ih =>
      simp only [edges] at h
      split at h
      next source target hsource htarget =>
        rcases List.mem_cons.mp h with rfl | hrest
        · exact ⟨number, relationship, source, target, hsource, htarget, rfl⟩
        · exact ih hrest
      next => exact ih h

theorem mem_of_boxOf? {model : Model} {placed : Array Box} {name : String} {b : Box}
    (h : boxOf? model placed name = some b) : b ∈ placed := by
  obtain ⟨i, _, hi⟩ := Option.bind_eq_some_iff.mp h
  exact Array.mem_of_getElem? hi

/-- An edge joins two of the placed boxes. -/
theorem exists_of_mem_edges {model : Model} {placed : Array Box} {number : Nat}
    {relationships : List Relationship} {e : Edge}
    (h : e ∈ edges model placed number relationships) :
    ∃ n relationship, ∃ source ∈ placed, ∃ target ∈ placed,
      e = edge n relationship source target := by
  obtain ⟨n, relationship, source, target, hsource, htarget, he⟩ := exists_boxOf?_of_mem_edges h
  exact ⟨n, relationship, source, mem_of_boxOf? hsource, target, mem_of_boxOf? htarget, he⟩

/-! ## Diagrams -/

/-- Settings that are not refused lay out every model. -/
theorem exists_layout {settings : LayoutSettings} (hsettings : settings.validate = .ok ())
    (model : Model) :
    ∃ diagram, layout settings model = .ok diagram ∧
      diagram.boxes = boxes settings 0 model.classes.toList ∧
      diagram.edges = edges model diagram.boxes.toArray 0 model.relationships.toList ∧
      diagram.width = (if diagram.boxes.isEmpty then 0
        else Size.wrap (largest (diagram.boxes.map (·.right)) + settings.margin)) ∧
      diagram.height = (if diagram.boxes.isEmpty then 0
        else Size.wrap (largest (diagram.boxes.map (·.bottom)) + settings.margin)) := by
  rw [layout, hsettings]
  exact ⟨_, rfl, rfl, rfl, rfl, rfl⟩

end ClassDiagram.Grid
