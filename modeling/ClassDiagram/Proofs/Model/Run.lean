import ClassDiagram.Json.Model
import ClassDiagram.Json.Reader
import ClassDiagram.Proofs.Model.Store

/-!
# Runs over the store

A model is changed by additions only. It may also be replaced, by a model made of given parts or
by one that is read from a text; both are made by additions to the empty model. So every model of
a run is consistent, its lookups agree with its list of classes, and what a model once holds stays
where it is for as long as the model is only added to.
-/

namespace ClassDiagram.Model

/-- The lookups of a model agree with its list of classes. -/
structure Agrees (model : Model) : Prop where
  position_iff : ∀ name i,
    model.position? name = some i ↔ ∃ record, model.classes[i]? = some record ∧ record.name = name
  contains_iff : ∀ name, model.contains name = true ↔ name ∈ model.names
  class_iff : ∀ name record,
    model.class? name = some record ↔ record ∈ model.classes.toList ∧ record.name = name
  sortedNames_perm : model.sortedNames.Perm model.names

/-- The later model still has every class, relationship and index position of the earlier one. -/
structure Extends (later earlier : Model) : Prop where
  classes : earlier.classes.toList <+: later.classes.toList
  relationships : earlier.relationships.toList <+: later.relationships.toList
  position : ∀ name i, earlier.position? name = some i → later.position? name = some i

theorem Extends.refl (model : Model) : model.Extends model where
  classes := List.prefix_refl _
  relationships := List.prefix_refl _
  position _ _ h := h

theorem Extends.trans {last middle first : Model} (hlater : last.Extends middle)
    (hearlier : middle.Extends first) : last.Extends first where
  classes := hearlier.classes.trans hlater.classes
  relationships := hearlier.relationships.trans hlater.relationships
  position name i h := hlater.position name i (hearlier.position name i h)

theorem getElem?_names (model : Model) (i : Nat) :
    model.names[i]? = (model.classes[i]?).map (·.name) := by
  rw [names, List.getElem?_map, Array.getElem?_toList]

theorem Consistent.position_iff {model : Model} (hmodel : model.Consistent) (name : String)
    (i : Nat) : model.position? name = some i ↔
      ∃ record, model.classes[i]? = some record ∧ record.name = name := by
  rw [hmodel.index_iff, getElem?_names, Option.map_eq_some_iff]

theorem Consistent.class_iff {model : Model} (hmodel : model.Consistent) (name : String)
    (record : ClassRecord) :
    model.class? name = some record ↔ record ∈ model.classes.toList ∧ record.name = name := by
  rw [class?, Option.bind_eq_some_iff]
  constructor
  · rintro ⟨i, hposition, hrecord⟩
    obtain ⟨found, hfound, hname⟩ := (hmodel.position_iff name i).mp hposition
    obtain rfl : found = record := Option.some.inj (hfound.symm.trans hrecord)
    exact ⟨List.mem_of_getElem? (Array.getElem?_toList.trans hrecord), hname⟩
  · rintro ⟨hmem, hname⟩
    obtain ⟨i, hi⟩ := List.mem_iff_getElem?.mp hmem
    have hrecord : model.classes[i]? = some record := Array.getElem?_toList.symm.trans hi
    exact ⟨i, (hmodel.position_iff name i).mpr ⟨record, hrecord, hname⟩, hrecord⟩

/-- The keys of the index are the names of the classes, each of them once. -/
theorem Consistent.sortedNames_perm {model : Model} (hmodel : model.Consistent) :
    model.sortedNames.Perm model.names := by
  refine (List.mergeSort_perm _ _).trans ?_
  rw [List.perm_ext_iff_of_nodup Std.HashMap.nodup_keys hmodel.names_nodup]
  intro name
  rw [Std.HashMap.mem_keys, ← hmodel.contains_iff, contains, Std.HashMap.contains_iff_mem]

theorem Consistent.agrees {model : Model} (hmodel : model.Consistent) : model.Agrees where
  position_iff := hmodel.position_iff
  contains_iff := hmodel.contains_iff
  class_iff := hmodel.class_iff
  sortedNames_perm := hmodel.sortedNames_perm

/-! ## Additions -/

/-- What may be added to a model. -/
inductive Addition
  | ofClass (record : ClassRecord)
  | ofRelationship (relationship : Relationship)

/-- Adds a class or a relationship; the second component says whether it was added. -/
def add (model : Model) : Addition → Model × Bool
  | .ofClass record => model.addClass record
  | .ofRelationship relationship => model.addRelationship relationship

/-- Adds one after the other what is not refused. -/
def addAll (model : Model) (additions : List Addition) : Model :=
  additions.foldl (fun m addition => (m.add addition).1) model

/-- What a model accepts: a class with a name that is new, and a relationship between two of its
classes. -/
def Admits (model : Model) : Addition → Prop
  | .ofClass record => record.name ≠ "" ∧ record.name ∉ model.names
  | .ofRelationship r => r.source ∈ model.names ∧ r.target ∈ model.names

/-- The later model is the earlier one and one addition at the end of its list. -/
def Appends (later earlier : Model) : Addition → Prop
  | .ofClass record =>
    later.classes = earlier.classes.push record ∧ later.relationships = earlier.relationships ∧
      ∀ name, later.position? name =
        if name = record.name then some earlier.classes.size else earlier.position? name
  | .ofRelationship r =>
    later.relationships = earlier.relationships.push r ∧ later.classes = earlier.classes ∧
      later.index = earlier.index

theorem Consistent.add {model : Model} (hmodel : model.Consistent) (addition : Addition) :
    (model.add addition).1.Consistent := by
  cases addition with
  | ofClass record => exact hmodel.addClass record
  | ofRelationship r => exact hmodel.addRelationship r

theorem Consistent.add_accepts_iff {model : Model} (hmodel : model.Consistent)
    (addition : Addition) : (model.add addition).2 = true ↔ model.Admits addition := by
  cases addition with
  | ofClass record => exact hmodel.addClass_accepts_iff record
  | ofRelationship r => exact hmodel.addRelationship_accepts_iff r

theorem add_of_refuses {model : Model} {addition : Addition}
    (hrefuses : (model.add addition).2 = false) : (model.add addition).1 = model := by
  cases addition with
  | ofClass record => exact addClass_of_refuses hrefuses
  | ofRelationship r => exact addRelationship_of_refuses hrefuses

theorem appends_add {model : Model} {addition : Addition}
    (haccepts : (model.add addition).2 = true) :
    (model.add addition).1.Appends model addition := by
  cases addition with
  | ofClass record =>
      change (model.addClass record).1.Appends model (.ofClass record)
      rw [addClass_of_accepts haccepts]
      refine ⟨rfl, rfl, ?_⟩
      intro name
      rw [position?, Std.HashMap.getElem?_insert]
      by_cases hname : record.name = name
      · simp [hname]
      · rw [if_neg (by simpa using hname), if_neg (Ne.symm hname)]
        rfl
  | ofRelationship r =>
      change (model.addRelationship r).1.Appends model (.ofRelationship r)
      rw [addRelationship_of_accepts haccepts]
      exact ⟨rfl, rfl, rfl⟩

/-- A model that is added to keeps what it has. -/
theorem Consistent.extends_add {model : Model} (hmodel : model.Consistent)
    (addition : Addition) : (model.add addition).1.Extends model := by
  cases haccepts : (model.add addition).2 with
  | false =>
      rw [add_of_refuses haccepts]
      exact .refl model
  | true =>
      have hadmits := (hmodel.add_accepts_iff addition).mp haccepts
      have happends := appends_add haccepts
      cases addition with
      | ofClass record =>
          obtain ⟨hclasses, hrelationships, hposition⟩ := happends
          refine ⟨?_, hrelationships ▸ List.prefix_refl _, ?_⟩
          · rw [hclasses, Array.toList_push]
            exact List.prefix_append _ _
          · intro name i hi
            -- A name that had a position is not the new one.
            have hname : name ∈ model.names := List.mem_of_getElem? ((hmodel.index_iff _ _).mp hi)
            have hother : name ≠ record.name := fun h => hadmits.2 (h ▸ hname)
            rw [hposition, if_neg hother, hi]
      | ofRelationship r =>
          obtain ⟨hrelationships, hclasses, hindex⟩ := happends
          refine ⟨hclasses ▸ List.prefix_refl _, ?_, ?_⟩
          · rw [hrelationships, Array.toList_push]
            exact List.prefix_append _ _
          · intro name i hi
            rwa [position?, hindex]

theorem Consistent.addAll {model : Model} (hmodel : model.Consistent)
    (additions : List Addition) : (model.addAll additions).Consistent := by
  induction additions generalizing model with
  | nil => exact hmodel
  | cons addition additions ih => exact ih (hmodel.add addition)

theorem Consistent.extends_addAll {model : Model} (hmodel : model.Consistent)
    (additions : List Addition) : (model.addAll additions).Extends model := by
  induction additions generalizing model with
  | nil => exact .refl model
  | cons addition additions ih =>
      exact (ih (hmodel.add addition)).trans (hmodel.extends_add addition)

/-- The additions that make a model of its parts. -/
def parts (records : List ClassRecord) (relationships : List Relationship) : List Addition :=
  records.map .ofClass ++ relationships.map .ofRelationship

theorem ofParts_eq_addAll (records : List ClassRecord) (rs : List Relationship) :
    ofParts records rs = empty.addAll (parts records rs) := by
  rw [ofParts, addAll, parts, List.foldl_append, List.foldl_map, List.foldl_map]
  rfl

/-! ## Steps and runs -/

/-- A step of a run: an addition, or a new model in place of the old one. -/
inductive Step
  | add (addition : Addition)
  | build (records : List ClassRecord) (relationships : List Relationship)
  | read (text : String)

/-- Takes a step; the second component says whether it was possible. -/
def take (model : Model) : Step → Model × Bool
  | .add addition => model.add addition
  | .build records relationships => (ofParts records relationships, true)
  | .read text =>
    match (Json.parse text).bind ofJson? with
    | some read => (read, true)
    | none => (model, false)

/-- The model after the steps of a run. -/
def run (steps : List Step) : Model := steps.foldl (fun model step => (model.take step).1) empty

/-- What a step does to a model. A new model owes nothing to the old one: it is the empty model
and the additions to it that were not refused. -/
def Step.Keeps (model : Model) : Step → Prop
  | .add addition =>
    ((model.take (.add addition)).2 = true ↔ model.Admits addition) ∧
      ((model.take (.add addition)).2 = true →
        (model.take (.add addition)).1.Appends model addition)
  | .build records relationships =>
    (model.take (.build records relationships)).1 = empty.addAll (parts records relationships)
  | .read text =>
    (model.take (.read text)).2 = true → ∃ records relationships,
      (model.take (.read text)).1 = empty.addAll (parts records relationships)

theorem exists_ofParts_of_ofJson? {json : Json} {model : Model}
    (hread : ofJson? json = some model) : ∃ records rs, model = ofParts records rs := by
  rw [ofJson?, Option.bind_eq_bind, Option.bind_eq_some_iff] at hread
  obtain ⟨fields, -, hread⟩ := hread
  split at hread
  next =>
    simp only [Option.bind_eq_bind, Option.bind_eq_some_iff, Option.some.injEq] at hread
    obtain ⟨records, -, rs, -, hmodel⟩ := hread
    exact ⟨records, rs, hmodel.symm⟩
  next => exact absurd hread (by simp)

theorem exists_addAll_of_read {text : String} {model : Model}
    (hread : (Json.parse text).bind ofJson? = some model) : ∃ records rs,
      model = empty.addAll (parts records rs) := by
  obtain ⟨json, -, hjson⟩ := Option.bind_eq_some_iff.mp hread
  obtain ⟨records, rs, rfl⟩ := exists_ofParts_of_ofJson? hjson
  exact ⟨records, rs, ofParts_eq_addAll records rs⟩

theorem Consistent.take {model : Model} (hmodel : model.Consistent) (step : Step) :
    (model.take step).1.Consistent := by
  cases step with
  | add addition => exact hmodel.add addition
  | build records rs =>
      change (ofParts records rs).Consistent
      rw [ofParts_eq_addAll]
      exact Consistent.empty.addAll _
  | read text =>
      rw [Model.take]
      split
      next read hread =>
        obtain ⟨records, rs, rfl⟩ := exists_addAll_of_read hread
        exact Consistent.empty.addAll _
      next => exact hmodel

theorem take_of_refuses {model : Model} {step : Step} (hrefuses : (model.take step).2 = false) :
    (model.take step).1 = model := by
  cases step with
  | add addition => exact add_of_refuses hrefuses
  | build records rs => exact absurd hrefuses (by simp [take])
  | read text =>
      rw [take] at hrefuses ⊢
      split at hrefuses
      next => exact absurd hrefuses (by simp)
      next hread => rfl

theorem Consistent.keeps {model : Model} (hmodel : model.Consistent) (step : Step) :
    step.Keeps model := by
  cases step with
  | add addition => exact ⟨hmodel.add_accepts_iff addition, appends_add⟩
  | build records rs => exact ofParts_eq_addAll records rs
  | read text =>
      change (model.take (.read text)).2 = true → _
      intro haccepts
      rw [Model.take] at haccepts ⊢
      split at haccepts
      next read hread => exact exists_addAll_of_read hread
      next => exact absurd haccepts Bool.false_ne_true

theorem consistent_run (steps : List Step) : (run steps).Consistent := by
  suffices ∀ model : Model, model.Consistent →
      (steps.foldl (fun m step => (m.take step).1) model).Consistent from this _ .empty
  induction steps with
  | nil => exact fun _ hmodel => hmodel
  | cons step steps ih => exact fun _ hmodel => ih _ (hmodel.take step)

theorem run_append_additions (steps : List Step) (additions : List Addition) :
    run (steps ++ additions.map .add) = (run steps).addAll additions := by
  rw [run, List.foldl_append, List.foldl_map]
  rfl

/-- The store over whole runs: the model after any steps is consistent and all its lookups agree,
the next step does what it may and leaves the model alone when it is refused, and additions never
change what the model already holds. -/
theorem run_keeps (steps : List Step) :
    (run steps).Consistent ∧ (run steps).Agrees ∧
      (∀ step : Step, step.Keeps (run steps) ∧
        (((run steps).take step).2 = false → ((run steps).take step).1 = run steps)) ∧
      ∀ additions : List Addition,
        (run (steps ++ additions.map .add)).Extends (run steps) := by
  have hmodel := consistent_run steps
  refine ⟨hmodel, hmodel.agrees, fun step => ⟨hmodel.keeps step, take_of_refuses⟩, ?_⟩
  intro additions
  rw [run_append_additions]
  exact hmodel.extends_addAll additions

end ClassDiagram.Model
