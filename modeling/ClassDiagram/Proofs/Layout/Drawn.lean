import ClassDiagram.Proofs.Layout.Grid
import ClassDiagram.Proofs.Layout.Identifier
import ClassDiagram.Proofs.Model.Reachable

/-!
# Every relationship is drawn

The grid looks for the ends of a relationship in the index of the model, and draws nothing if it
does not find them. In a model that can be made it always finds them: the index knows the ends of
every relationship, and it knows them at the places of their boxes. So a diagram has one box for
each class and one edge for each relationship.
-/

namespace ClassDiagram

namespace Grid

variable {settings : LayoutSettings} {model : Model}

/-- The index leads from the name of a class to its box. -/
theorem boxOf?_name (settings : LayoutSettings) (hmodel : model.Consistent) {i : Nat}
    {record : ClassRecord} (hrecord : model.classes[i]? = some record) :
    boxOf? model (boxes settings 0 model.classes.toList).toArray record.name =
      some (box settings i record) := by
  have hposition := (hmodel.position_iff record.name i).mpr ⟨record, hrecord, rfl⟩
  rw [boxOf?, hposition, Option.bind_some, List.getElem?_toArray, getElem?_boxes,
    Array.getElem?_toList, hrecord, Nat.zero_add]
  rfl

theorem exists_boxOf? (settings : LayoutSettings) (hmodel : model.Consistent) {name : String}
    (hname : name ∈ model.names) :
    ∃ i record, model.classes[i]? = some record ∧ record.name = name ∧
      boxOf? model (boxes settings 0 model.classes.toList).toArray name =
        some (box settings i record) := by
  obtain ⟨i, hi⟩ := List.mem_iff_getElem?.mp hname
  have hposition := (hmodel.index_iff name i).mpr hi
  obtain ⟨record, hrecord, rfl⟩ := (hmodel.position_iff name i).mp hposition
  exact ⟨i, record, hrecord, rfl, boxOf?_name settings hmodel hrecord⟩

theorem isPlaced_of_mem (hmodel : model.Consistent) {relationship : Relationship}
    (hrelationship : relationship ∈ model.relationships.toList) :
    IsPlaced model (boxes settings 0 model.classes.toList).toArray relationship := by
  obtain ⟨hsource, htarget⟩ := hmodel.joins relationship hrelationship
  obtain ⟨_, _, _, _, hsource⟩ := exists_boxOf? settings hmodel hsource
  obtain ⟨_, _, _, _, htarget⟩ := exists_boxOf? settings hmodel htarget
  exact ⟨_, _, hsource, htarget⟩

/-- The layout of a consistent model places both ends of every relationship. -/
theorem exists_layout_placed (hsettings : settings.validate = .ok ()) (hmodel : model.Consistent) :
    ∃ diagram, layout settings model = .ok diagram ∧
      diagram.boxes = boxes settings 0 model.classes.toList ∧
      diagram.edges = edges model diagram.boxes.toArray 0 model.relationships.toList ∧
      ∀ relationship ∈ model.relationships.toList,
        IsPlaced model diagram.boxes.toArray relationship := by
  obtain ⟨diagram, hlayout, hboxes, hedges, _⟩ := exists_layout hsettings model
  refine ⟨diagram, hlayout, hboxes, hedges, fun relationship hrelationship => ?_⟩
  rw [hboxes]
  exact isPlaced_of_mem hmodel hrelationship

/-- The layout of classes of which two are related. -/
theorem exists_layout_related (hsettings : settings.validate = .ok ()) {records : List ClassRecord}
    (hnamed : ∀ record ∈ records, record.name ≠ "") (hnodup : (records.map (·.name)).Nodup)
    {i j : Nat} {a b : ClassRecord} (hi : records[i]? = some a) (hj : records[j]? = some b)
    (kind : RelationshipKind) :
    ∃ diagram, layout settings (Model.ofParts records [⟨a.name, b.name, kind⟩]) = .ok diagram ∧
      diagram.boxes = boxes settings 0 records ∧
      diagram.edges =
        [edge 0 ⟨a.name, b.name, kind⟩ (box settings i a) (box settings j b)] := by
  have hends : ∀ r ∈ [(⟨a.name, b.name, kind⟩ : Relationship)],
      r.source ∈ records.map (·.name) ∧ r.target ∈ records.map (·.name) := by
    simp only [List.mem_singleton, forall_eq]
    exact ⟨List.mem_map_of_mem (List.mem_of_getElem? hi),
      List.mem_map_of_mem (List.mem_of_getElem? hj)⟩
  obtain ⟨hclasses, hrelationships⟩ := Model.toList_ofParts hnamed hnodup hends
  have hmodel : (Model.ofParts records [⟨a.name, b.name, kind⟩]).Consistent :=
    (Model.Consistent.empty.addClasses records).addRelationships _
  obtain ⟨diagram, hlayout, hboxes, hedges, _⟩ := exists_layout_placed hsettings hmodel
  refine ⟨diagram, hlayout, hboxes.trans (congrArg _ hclasses), ?_⟩
  have hsource := boxOf?_name settings hmodel
    ((Array.getElem?_toList.symm.trans (congrArg (·[i]?) hclasses)).trans hi)
  have htarget := boxOf?_name settings hmodel
    ((Array.getElem?_toList.symm.trans (congrArg (·[j]?) hclasses)).trans hj)
  rw [← hboxes] at hsource htarget
  rw [hedges, hrelationships, edges_of_isPlaced hsource htarget]
  rfl

end Grid

end ClassDiagram
