import ClassDiagram.Proofs.Model.Reachable

/-!
# Models made of their own parts

Every model comes from the empty one by additions, and its index is the one that its classes build
in their order, whatever was added in between. So a model that is made anew of its own classes and
relationships is the same model, index included.
-/

namespace ClassDiagram.Model

/-! ## Every model is a run of additions -/

theorem addAll_append (model : Model) (first second : List Addition) :
    model.addAll (first ++ second) = (model.addAll first).addAll second :=
  List.foldl_append

theorem exists_addAll_of_take {model : Model} (hmodel : ∃ additions, model = empty.addAll additions)
    (step : Step) : ∃ additions, (model.take step).1 = empty.addAll additions := by
  cases step with
  | add addition =>
      obtain ⟨additions, rfl⟩ := hmodel
      exact ⟨additions ++ [addition], (addAll_append empty additions [addition]).symm⟩
  | build records rs => exact ⟨_, ofParts_eq_addAll records rs⟩
  | read text =>
      rw [take]
      split
      next read hread =>
        obtain ⟨records, rs, rfl⟩ := exists_addAll_of_read hread
        exact ⟨_, rfl⟩
      next => exact hmodel

/-- Whichever way a model was made, additions to the empty model make it too. -/
theorem Reachable.exists_addAll {model : Model} (hmodel : model.Reachable) :
    ∃ additions, model = Model.empty.addAll additions := by
  induction hmodel with
  | empty => exact ⟨[], rfl⟩
  | take _ step ih => exact exists_addAll_of_take ih step
  | assembled hassemble =>
      obtain ⟨accepted, hmodel⟩ := exists_modelOf_of_assemble hassemble
      exact ⟨_, hmodel.trans (ofParts_eq_addAll _ _)⟩

/-! ## The index that the classes build -/

/-- The index is the one that adding the classes in their order builds. -/
def IsIndexed (model : Model) : Prop :=
  model.index = (empty.addClasses model.classes.toList).index

@[simp]
theorem index_addRelationship (model : Model) (r : Relationship) :
    (model.addRelationship r).1.index = model.index := by
  unfold addRelationship
  split <;> rfl

@[simp]
theorem index_addRelationships (model : Model) (rs : List Relationship) :
    (model.addRelationships rs).index = model.index := by
  induction rs generalizing model with
  | nil => rfl
  | cons r rs ih => exact (ih _).trans (index_addRelationship model r)

theorem addClasses_concat (model : Model) (records : List ClassRecord) (record : ClassRecord) :
    model.addClasses (records ++ [record]) = ((model.addClasses records).addClass record).1 :=
  List.foldl_append

/-- The classes of a consistent model are all added to the empty one. -/
theorem Consistent.toList_addClasses {model : Model} (hmodel : model.Consistent) :
    (Model.empty.addClasses model.classes.toList).classes.toList = model.classes.toList :=
  Consistent.empty.classes_addClasses
    (fun record hrecord => hmodel.names_nonempty record.name (List.mem_map_of_mem hrecord))
    hmodel.names_nodup

theorem IsIndexed.addClass {model : Model} (hmodel : model.Consistent) (hindex : model.IsIndexed)
    (record : ClassRecord) : (model.addClass record).1.IsIndexed := by
  cases haccepts : (model.addClass record).2 with
  | false => rwa [addClass_of_refuses haccepts]
  | true =>
      have hadmits := (hmodel.addClass_accepts_iff record).mp haccepts
      have hclasses := hmodel.toList_addClasses
      -- The classes that were there build a model with the same names, which accepts the new one.
      have hnames : (Model.empty.addClasses model.classes.toList).names = model.names :=
        congrArg (List.map ClassRecord.name) hclasses
      have hrebuilt := Consistent.empty.addClasses model.classes.toList
      have haccepted := (hrebuilt.addClass_accepts_iff record).mpr (hnames ▸ hadmits)
      have hsize := congrArg List.length hclasses
      simp only [Array.length_toList] at hsize
      rw [IsIndexed, addClass_of_accepts haccepts, Array.toList_push, addClasses_concat,
        addClass_of_accepts haccepted, ← hindex, hsize]

theorem IsIndexed.add {model : Model} (hmodel : model.Consistent) (hindex : model.IsIndexed)
    (addition : Addition) : (model.add addition).1.IsIndexed := by
  cases addition with
  | ofClass record => exact hindex.addClass hmodel record
  | ofRelationship r =>
      change (model.addRelationship r).1.IsIndexed
      rw [IsIndexed, index_addRelationship, classes_addRelationship]
      exact hindex

theorem isIndexed_addAll (additions : List Addition) : (empty.addAll additions).IsIndexed := by
  suffices ∀ model : Model, model.Consistent → model.IsIndexed →
      (model.addAll additions).IsIndexed from this _ .empty rfl
  induction additions with
  | nil => exact fun _ _ hindex => hindex
  | cons addition additions ih =>
      exact fun _ hmodel hindex => ih _ (hmodel.add addition) (hindex.add hmodel addition)

/-! ## Made anew -/

/-- A consistent model with the index that its classes build is made of its parts. -/
theorem Consistent.ofParts_eq {model : Model} (hmodel : model.Consistent)
    (hindex : model.IsIndexed) :
    ofParts model.classes.toList model.relationships.toList = model := by
  obtain ⟨hclasses, hrelationships⟩ := toList_ofParts
    (fun record hrecord => hmodel.names_nonempty record.name (List.mem_map_of_mem hrecord))
    hmodel.names_nodup hmodel.joins
  have hrebuilt : (ofParts model.classes.toList model.relationships.toList).index = model.index :=
    (index_addRelationships _ _).trans hindex.symm
  cases model
  rw [ofParts] at hclasses hrelationships hrebuilt ⊢
  exact Model.mk.injEq .. ▸ ⟨Array.toList_inj.mp hclasses, Array.toList_inj.mp hrelationships,
    hrebuilt⟩

/-- Additions to the empty model end in a model that its own parts make again. -/
theorem ofParts_addAll (additions : List Addition) :
    ofParts (empty.addAll additions).classes.toList
        (empty.addAll additions).relationships.toList =
      empty.addAll additions :=
  (Consistent.empty.addAll additions).ofParts_eq (isIndexed_addAll additions)

theorem Reachable.ofParts_eq {model : Model} (hmodel : model.Reachable) :
    ofParts model.classes.toList model.relationships.toList = model := by
  obtain ⟨additions, rfl⟩ := hmodel.exists_addAll
  exact ofParts_addAll additions

end ClassDiagram.Model
