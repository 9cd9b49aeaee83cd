import ClassDiagram.Model.Record
import ClassDiagram.Model.Relationship
import Std.Data.HashMap

/-!
# Class models

The classes of a diagram and the relationships between them. Class names are unique and not
empty, and a relationship joins two classes of the model: what would break this is refused. An
index finds the position of a class by its name.
-/

namespace ClassDiagram

/-- The classes and relationships of a diagram, in the order in which they were added. -/
structure Model where
  classes : Array ClassRecord
  relationships : Array Relationship
  /-- The position of each class, by its name. -/
  index : Std.HashMap String Nat

namespace Model

/-- The model without classes. -/
def empty : Model := ⟨#[], #[], ∅⟩

/-- The position of the class with a name. -/
def position? (model : Model) (name : String) : Option Nat := model.index[name]?

/-- Whether a class has a name. -/
def contains (model : Model) (name : String) : Bool := model.index.contains name

/-- The class with a name. -/
def class? (model : Model) (name : String) : Option ClassRecord :=
  (model.position? name).bind fun i => model.classes[i]?

/-- The names of the classes, in order. -/
def sortedNames (model : Model) : List String := model.index.keys.mergeSort fun a b => a ≤ b

/-- Adds a class at the end, unless it is unnamed or its name is taken; the second component says
whether it was added. -/
def addClass (model : Model) (record : ClassRecord) : Model × Bool :=
  if !record.isUsable || model.contains record.name then (model, false)
  else
    ({ model with
        classes := model.classes.push record
        index := model.index.insert record.name model.classes.size }, true)

/-- Adds a relationship at the end, unless one of its ends is no class of the model; the second
component says whether it was added. -/
def addRelationship (model : Model) (relationship : Relationship) : Model × Bool :=
  if model.contains relationship.source && model.contains relationship.target then
    ({ model with relationships := model.relationships.push relationship }, true)
  else (model, false)

/-- Adds classes one after the other, those that are not refused. -/
def addClasses (model : Model) (records : List ClassRecord) : Model :=
  records.foldl (fun m record => (m.addClass record).1) model

/-- Adds relationships one after the other, those that are not refused. -/
def addRelationships (model : Model) (relationships : List Relationship) : Model :=
  relationships.foldl (fun m relationship => (m.addRelationship relationship).1) model

/-- The model of the given classes and relationships, without those that are refused. -/
def ofParts (records : List ClassRecord) (relationships : List Relationship) : Model :=
  (empty.addClasses records).addRelationships relationships

end Model

end ClassDiagram
