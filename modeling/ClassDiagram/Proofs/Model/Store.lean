import ClassDiagram.Model.Basic
import Mathlib.Data.List.Nodup

/-!
# The store of classes and relationships

The index of a model is a second copy of its list of classes. Every addition keeps the two in
step, keeps names unique and nonempty, and keeps both ends of every relationship in the model.
-/

namespace ClassDiagram.Model

/-- The names of the classes, in the order in which they were added. -/
def names (model : Model) : List String := model.classes.toList.map (·.name)

/-- What every model keeps that is built by additions. -/
structure Consistent (model : Model) : Prop where
  /-- The index finds exactly the position of each class. -/
  index_iff : ∀ name i, model.position? name = some i ↔ model.names[i]? = some name
  names_nodup : model.names.Nodup
  names_nonempty : ∀ name ∈ model.names, name ≠ ""
  joins : ∀ r ∈ model.relationships.toList, r.source ∈ model.names ∧ r.target ∈ model.names

@[simp]
theorem names_empty : empty.names = [] := rfl

theorem Consistent.empty : Consistent empty where
  index_iff name i := by simp [position?, names, Model.empty]
  names_nodup := List.nodup_nil
  names_nonempty := by simp
  joins := by simp [Model.empty]

/-- The index knows a name exactly if a class has it. -/
theorem Consistent.contains_iff {model : Model} (hmodel : model.Consistent) (name : String) :
    model.contains name = true ↔ name ∈ model.names := by
  rw [contains, Std.HashMap.contains_eq_isSome_getElem?, Option.isSome_iff_exists,
    List.mem_iff_getElem?]
  exact exists_congr fun i => hmodel.index_iff name i

/-- A class is added exactly if it has a name that no class has yet. -/
theorem Consistent.addClass_accepts_iff {model : Model} (hmodel : model.Consistent)
    (record : ClassRecord) :
    (model.addClass record).2 = true ↔ record.name ≠ "" ∧ record.name ∉ model.names := by
  rw [← hmodel.contains_iff]
  by_cases hname : record.name = "" <;> cases hin : model.contains record.name <;>
    simp [Model.addClass, ClassRecord.isUsable, hname, hin]

/-- What an addition that succeeds does to the classes, and what it leaves alone. -/
theorem addClass_of_accepts {model : Model} {record : ClassRecord}
    (haccepts : (model.addClass record).2 = true) :
    (model.addClass record).1 = { model with
      classes := model.classes.push record
      index := model.index.insert record.name model.classes.size } := by
  unfold addClass at haccepts ⊢
  split at haccepts
  next => exact absurd haccepts Bool.false_ne_true
  next hnot => rw [if_neg hnot]

/-- A refused class leaves the whole model as it is. -/
theorem addClass_of_refuses {model : Model} {record : ClassRecord}
    (hrefuses : (model.addClass record).2 = false) : (model.addClass record).1 = model := by
  unfold addClass at hrefuses ⊢
  split at hrefuses
  next hif => rw [if_pos hif]
  next => exact absurd hrefuses (by simp)

theorem Consistent.addClass {model : Model} (hmodel : model.Consistent) (record : ClassRecord) :
    (model.addClass record).1.Consistent := by
  cases haccepts : (model.addClass record).2 with
  | false => rwa [addClass_of_refuses haccepts]
  | true =>
      obtain ⟨hnamed, hfresh⟩ := (hmodel.addClass_accepts_iff record).mp haccepts
      rw [addClass_of_accepts haccepts]
      have hsize : model.names.length = model.classes.size := by simp [names]
      have hnames : names { model with
          classes := model.classes.push record
          index := model.index.insert record.name model.classes.size } =
          model.names ++ [record.name] := by simp [names]
      refine ⟨?_, ?_, ?_, ?_⟩
      · intro name i
        have hold := hmodel.index_iff name i
        rw [hnames, position?, Std.HashMap.getElem?_insert]
        -- The new name had no position before, so only its own entry changes.
        by_cases hname : record.name = name
        · subst hname
          have hlate : ∀ j, model.names[j]? = some record.name → False :=
            fun j hj => hfresh (List.mem_of_getElem? hj)
          grind
        · grind [position?]
      · rw [hnames, List.nodup_append]
        refine ⟨hmodel.names_nodup, List.nodup_singleton _, ?_⟩
        intro a ha b hb
        rw [List.mem_singleton.mp hb]
        exact fun heq => hfresh (heq ▸ ha)
      · rw [hnames]
        intro name hname
        rcases List.mem_append.mp hname with hold | hnew
        · exact hmodel.names_nonempty name hold
        · exact List.mem_singleton.mp hnew ▸ hnamed
      · rw [hnames]
        intro r hr
        obtain ⟨hsource, htarget⟩ := hmodel.joins r hr
        exact ⟨List.mem_append_left _ hsource, List.mem_append_left _ htarget⟩

/-- A relationship is added exactly if both its ends are classes of the model. -/
theorem Consistent.addRelationship_accepts_iff {model : Model} (hmodel : model.Consistent)
    (r : Relationship) :
    (model.addRelationship r).2 = true ↔ r.source ∈ model.names ∧ r.target ∈ model.names := by
  rw [← hmodel.contains_iff, ← hmodel.contains_iff]
  unfold addRelationship
  split <;> simp_all

theorem addRelationship_of_accepts {model : Model} {r : Relationship}
    (haccepts : (model.addRelationship r).2 = true) :
    (model.addRelationship r).1 = { model with
      relationships := model.relationships.push r } := by
  unfold addRelationship at haccepts ⊢
  split at haccepts
  next hif => rw [if_pos hif]
  next => exact absurd haccepts Bool.false_ne_true

theorem addRelationship_of_refuses {model : Model} {r : Relationship}
    (hrefuses : (model.addRelationship r).2 = false) : (model.addRelationship r).1 = model := by
  unfold addRelationship at hrefuses ⊢
  split at hrefuses
  next => exact absurd hrefuses (by simp)
  next hnot => rw [if_neg hnot]

@[simp]
theorem relationships_addClass (model : Model) (record : ClassRecord) :
    (model.addClass record).1.relationships = model.relationships := by
  unfold addClass
  split <;> rfl

@[simp]
theorem classes_addRelationship (model : Model) (r : Relationship) :
    (model.addRelationship r).1.classes = model.classes := by
  unfold addRelationship
  split <;> rfl

@[simp]
theorem names_addRelationship (model : Model) (r : Relationship) :
    (model.addRelationship r).1.names = model.names :=
  congrArg (fun classes => classes.toList.map (·.name)) (classes_addRelationship model r)

theorem Consistent.addRelationship {model : Model} (hmodel : model.Consistent)
    (r : Relationship) : (model.addRelationship r).1.Consistent := by
  cases haccepts : (model.addRelationship r).2 with
  | false => rwa [addRelationship_of_refuses haccepts]
  | true =>
      have hends := (hmodel.addRelationship_accepts_iff r).mp haccepts
      rw [addRelationship_of_accepts haccepts]
      refine ⟨hmodel.index_iff, hmodel.names_nodup, hmodel.names_nonempty, ?_⟩
      intro edge hedge
      rcases List.mem_append.mp (Array.toList_push ▸ hedge) with hold | hnew
      · exact hmodel.joins edge hold
      · exact List.mem_singleton.mp hnew ▸ hends

/-! ## Runs of additions -/

theorem Consistent.addClasses {model : Model} (hmodel : model.Consistent)
    (records : List ClassRecord) : (model.addClasses records).Consistent := by
  induction records generalizing model with
  | nil => exact hmodel
  | cons record records ih => exact ih (hmodel.addClass record)

theorem Consistent.addRelationships {model : Model} (hmodel : model.Consistent)
    (rs : List Relationship) : (model.addRelationships rs).Consistent := by
  induction rs generalizing model with
  | nil => exact hmodel
  | cons r rs ih => exact ih (hmodel.addRelationship r)

@[simp]
theorem names_addRelationships (model : Model) (rs : List Relationship) :
    (model.addRelationships rs).names = model.names := by
  induction rs generalizing model with
  | nil => rfl
  | cons r rs ih => exact (ih _).trans (names_addRelationship model r)

@[simp]
theorem relationships_addClasses (model : Model) (records : List ClassRecord) :
    (model.addClasses records).relationships = model.relationships := by
  induction records generalizing model with
  | nil => rfl
  | cons record records ih => exact (ih _).trans (relationships_addClass model record)

@[simp]
theorem classes_addRelationships (model : Model) (rs : List Relationship) :
    (model.addRelationships rs).classes = model.classes := by
  induction rs generalizing model with
  | nil => rfl
  | cons r rs ih => exact (ih _).trans (classes_addRelationship model r)

/-- Named classes with distinct new names are all added, in order. -/
theorem Consistent.classes_addClasses {model : Model} (hmodel : model.Consistent)
    {records : List ClassRecord} (hnamed : ∀ record ∈ records, record.name ≠ "")
    (hnodup : (model.names ++ records.map (·.name)).Nodup) :
    (model.addClasses records).classes.toList = model.classes.toList ++ records := by
  induction records generalizing model with
  | nil => simp [Model.addClasses]
  | cons record records ih =>
      have hfresh : record.name ∉ model.names := by
        intro hmem
        exact (List.nodup_append.mp hnodup).2.2 _ hmem _ (by simp) rfl
      have haccepts := (hmodel.addClass_accepts_iff record).mpr ⟨hnamed record (by simp), hfresh⟩
      have hnames : (model.addClass record).1.names = model.names ++ [record.name] := by
        rw [addClass_of_accepts haccepts]
        simp [names]
      have hrest := ih (hmodel.addClass record) (fun r hr => hnamed r (by simp [hr]))
        (by rw [hnames]; simpa using hnodup)
      change ((model.addClass record).1.addClasses records).classes.toList = _
      rw [hrest, addClass_of_accepts haccepts]
      simp

/-- Relationships between classes of the model are all added, in order. -/
theorem Consistent.relationships_addRelationships {model : Model} (hmodel : model.Consistent)
    {rs : List Relationship} (hends : ∀ r ∈ rs, r.source ∈ model.names ∧ r.target ∈ model.names) :
    (model.addRelationships rs).relationships.toList = model.relationships.toList ++ rs := by
  induction rs generalizing model with
  | nil => simp [Model.addRelationships]
  | cons r rs ih =>
      have haccepts := (hmodel.addRelationship_accepts_iff r).mpr (hends r (by simp))
      have hrest := ih (hmodel.addRelationship r)
        (fun edge hedge => by simpa using hends edge (by simp [hedge]))
      change ((model.addRelationship r).1.addRelationships rs).relationships.toList = _
      rw [hrest, addRelationship_of_accepts haccepts]
      simp

/-- Parts of which none is refused come back as they are. -/
theorem toList_ofParts {records : List ClassRecord} {rs : List Relationship}
    (hnamed : ∀ record ∈ records, record.name ≠ "") (hnodup : (records.map (·.name)).Nodup)
    (hends : ∀ r ∈ rs, r.source ∈ records.map (·.name) ∧ r.target ∈ records.map (·.name)) :
    (ofParts records rs).classes.toList = records ∧
      (ofParts records rs).relationships.toList = rs := by
  have hclasses : (empty.addClasses records).classes.toList = records :=
    Consistent.empty.classes_addClasses hnamed hnodup
  have hnames : (empty.addClasses records).names = records.map (·.name) :=
    congrArg (List.map ClassRecord.name) hclasses
  have hrelationships := (Consistent.empty.addClasses records).relationships_addRelationships
    (hnames ▸ hends)
  rw [relationships_addClasses] at hrelationships
  exact ⟨(congrArg Array.toList (classes_addRelationships _ rs)).trans hclasses, hrelationships⟩

end ClassDiagram.Model
