import ClassDiagram.Proofs.Model.Rebuilt
import Mathlib.Data.List.Induction

/-!
# The normal form of parts

Parts may repeat a class, leave it without a name, or relate classes that are missing. A model made
of them keeps of each name the record that stands first, and of the relationships those between
classes that it keeps. What additions make in whichever order has no such fault, so it is the model
of its own parts, and to take a model apart and to make it anew changes nothing.
-/

namespace ClassDiagram.Model

/-! ## The first record of each name -/

/-- The records that have a name which no record in front of them has. -/
def firstNamed (records : List ClassRecord) : List ClassRecord :=
  (records.zipIdx.filter fun (record, i) =>
    record.name ≠ "" ∧ record.name ∉ (records.take i).map (·.name)).map Prod.fst

@[simp]
theorem firstNamed_nil : firstNamed [] = [] := rfl

/-- One more record is kept exactly if it brings a new name. -/
theorem firstNamed_concat (records : List ClassRecord) (record : ClassRecord) :
    firstNamed (records ++ [record]) = firstNamed records ++
      if record.name ≠ "" ∧ record.name ∉ records.map (·.name) then [record] else [] := by
  have hfront : (records.zipIdx.filter fun (other, i) => other.name ≠ "" ∧
      other.name ∉ ((records ++ [record]).take i).map (·.name)) =
        records.zipIdx.filter fun (other, i) => other.name ≠ "" ∧
          other.name ∉ (records.take i).map (·.name) := by
    apply List.filter_congr
    rintro ⟨other, i⟩ hmem
    -- The new record stands behind all others.
    have hi : i < records.length := by simpa using (List.mem_zipIdx hmem).2.1
    dsimp only
    rw [List.take_append_of_le_length (Nat.le_of_lt hi)]
  rw [firstNamed, List.zipIdx_append, List.filter_append, List.map_append, hfront, firstNamed]
  congr 1
  by_cases hnew : record.name ≠ "" ∧ record.name ∉ records.map (·.name)
  · rw [if_pos hnew, List.zipIdx_singleton, List.filter_cons_of_pos (by simpa using hnew)]
    rfl
  · rw [if_neg hnew, List.zipIdx_singleton, List.filter_cons_of_neg (by simpa using hnew)]
    rfl

example : firstNamed [⟨"A", ["int x"], []⟩, ⟨"", [], []⟩, ⟨"A", [], []⟩, ⟨"B", [], []⟩] =
    [⟨"A", ["int x"], []⟩, ⟨"B", [], []⟩] := by
  decide

/-- Every name is kept. -/
theorem mem_map_name_firstNamed (records : List ClassRecord) (name : String) :
    name ∈ (firstNamed records).map (·.name) ↔ name ≠ "" ∧ name ∈ records.map (·.name) := by
  induction records using List.reverseRecOn with
  | nil => simp
  | append_singleton records record ih =>
      rw [firstNamed_concat, List.map_append, List.map_append, List.mem_append, List.mem_append, ih]
      split
      next hnew => grind
      next hold => grind

/-! ## What a model keeps -/

theorem toList_addClasses (records : List ClassRecord) :
    (empty.addClasses records).classes.toList = firstNamed records := by
  induction records using List.reverseRecOn with
  | nil => rfl
  | append_singleton records record ih =>
      have hmodel := Consistent.empty.addClasses records
      have hnames : record.name ≠ "" ∧ record.name ∉ (empty.addClasses records).names ↔
          record.name ≠ "" ∧ record.name ∉ records.map (·.name) := by
        rw [names, ih, mem_map_name_firstNamed]
        grind
      rw [addClasses_concat, firstNamed_concat, ← ih]
      cases haccepts : ((empty.addClasses records).addClass record).2 with
      | true =>
          have hnew := hnames.mp ((hmodel.addClass_accepts_iff record).mp haccepts)
          rw [addClass_of_accepts haccepts, if_pos hnew, Array.toList_push]
      | false =>
          have hold : ¬(record.name ≠ "" ∧ record.name ∉ records.map (·.name)) := by
            intro hnew
            have hadded := (hmodel.addClass_accepts_iff record).mpr (hnames.mpr hnew)
            exact Bool.false_ne_true (haccepts.symm.trans hadded)
          rw [addClass_of_refuses haccepts, if_neg hold, List.append_nil]

theorem Consistent.toList_addRelationships {model : Model} (hmodel : model.Consistent)
    (rs : List Relationship) :
    (model.addRelationships rs).relationships.toList = model.relationships.toList ++
      rs.filter fun r => r.source ∈ model.names ∧ r.target ∈ model.names := by
  induction rs generalizing model with
  | nil => simp [Model.addRelationships]
  | cons r rs ih =>
      have hrest := ih (hmodel.addRelationship r)
      rw [names_addRelationship] at hrest
      change ((model.addRelationship r).1.addRelationships rs).relationships.toList = _
      rw [hrest]
      cases haccepts : (model.addRelationship r).2 with
      | true =>
          have hends := (hmodel.addRelationship_accepts_iff r).mp haccepts
          rw [addRelationship_of_accepts haccepts, List.filter_cons_of_pos (by simpa using hends)]
          simp
      | false =>
          have hends : ¬(r.source ∈ model.names ∧ r.target ∈ model.names) := by
            intro hends
            have hadded := (hmodel.addRelationship_accepts_iff r).mpr hends
            exact Bool.false_ne_true (haccepts.symm.trans hadded)
          rw [addRelationship_of_refuses haccepts, List.filter_cons_of_neg (by simpa using hends)]

theorem names_addClasses (records : List ClassRecord) :
    (empty.addClasses records).names = (firstNamed records).map (·.name) :=
  congrArg (List.map ClassRecord.name) (toList_addClasses records)

/-- To make a model of parts is to bring them into their normal form. The first record of each name
is kept with its members, in order, and each relationship between kept classes as often as it is
given; a model that any additions end in is made of its own parts, index included; and so a model
that is made of parts is made of its own parts too. -/
theorem ofParts_isNormalForm :
    (∀ (records : List ClassRecord) (rs : List Relationship),
      (ofParts records rs).classes.toList = firstNamed records ∧
      (ofParts records rs).relationships.toList = rs.filter fun r =>
        r.source ∈ (firstNamed records).map (·.name) ∧
          r.target ∈ (firstNamed records).map (·.name)) ∧
    (∀ (additions : List Addition) (model : Model), empty.addAll additions = model →
      ofParts model.classes.toList model.relationships.toList = model) ∧
    ∀ (records : List ClassRecord) (rs : List Relationship),
      ofParts (ofParts records rs).classes.toList (ofParts records rs).relationships.toList =
        ofParts records rs := by
  refine ⟨fun records rs => ⟨?_, ?_⟩, ?_, fun records rs => ?_⟩
  · rw [ofParts, classes_addRelationships, toList_addClasses]
  · have hmodel := Consistent.empty.addClasses records
    rw [ofParts, hmodel.toList_addRelationships, relationships_addClasses, names_addClasses]
    rfl
  · rintro additions _ rfl
    exact ofParts_addAll additions
  · rw [ofParts_eq_addAll records rs]
    exact ofParts_addAll _

end ClassDiagram.Model
