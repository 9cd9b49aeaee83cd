import ClassDiagram.Json.Record
import ClassDiagram.Model.Basic

/-!
# Models in JSON

The JSON form of class models. A model that is read is built anew from its parts, so that it
refuses what a model refuses; a list that is missing is empty.
-/

namespace ClassDiagram

namespace ClassRecord

/-- The JSON form of a class record. -/
def toJson (record : ClassRecord) : Json := .object [
  ("name", .string record.name),
  ("attributes", .array (record.attributes.map .string)),
  ("methods", .array (record.methods.map .string))]

/-- Reads a class record. -/
def ofJson? (json : Json) : Option ClassRecord := do
  match ← json.record? ["name", "attributes", "methods"] 0 with
  | [name, attributes, methods] =>
    some ⟨← (← name).text?, ← (← attributes).list? Json.text?, ← (← methods).list? Json.text?⟩
  | _ => none

end ClassRecord

/-- Reads the kind of a relationship. -/
def RelationshipKind.ofJson? (json : Json) : Option RelationshipKind :=
  json.choice? RelationshipKind.all RelationshipKind.name

namespace Relationship

/-- The JSON form of a relationship. -/
def toJson (relationship : Relationship) : Json := .object [
  ("from", .string relationship.source),
  ("to", .string relationship.target),
  ("type", .string relationship.kind.name)]

/-- Reads a relationship. -/
def ofJson? (json : Json) : Option Relationship := do
  match ← json.record? ["from", "to", "type"] 0 with
  | [source, target, kind] =>
    some ⟨← (← source).text?, ← (← target).text?, ← RelationshipKind.ofJson? (← kind)⟩
  | _ => none

end Relationship

namespace Model

/-- The JSON form of a model. -/
def toJson (model : Model) : Json := .object [
  ("classes", .array (model.classes.toList.map ClassRecord.toJson)),
  ("relationships", .array (model.relationships.toList.map Relationship.toJson))]

/-- Reads a list that may be missing. -/
def listOrEmpty? {α : Type} (item? : Json → Option α) : Option Json → Option (List α)
  | none => some []
  | some json => json.list? item?

/-- Reads a model. -/
def ofJson? (json : Json) : Option Model := do
  match ← json.record? ["classes", "relationships"] 2 with
  | [classes, relationships] =>
    some (ofParts (← listOrEmpty? ClassRecord.ofJson? classes)
      (← listOrEmpty? Relationship.ofJson? relationships))
  | _ => none

end Model

end ClassDiagram
