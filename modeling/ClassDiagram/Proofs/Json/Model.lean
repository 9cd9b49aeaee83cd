import ClassDiagram.Proofs.Json.Diagram
import ClassDiagram.Proofs.Model.Rebuilt

/-!
# Models through JSON

The JSON form of a model leaves its index out. A model that is read is built anew from its classes
and relationships, which repairs what is wrong with them; a model that was made before has nothing
to repair and comes back as it was, with the index that it had.
-/

namespace ClassDiagram

open Json

namespace ClassRecord

variable (record : ClassRecord)

theorem plain_toJson : record.toJson.Plain := by
  have htexts : ∀ texts : List String, (array (texts.map .string)).Plain := fun texts =>
    .array (List.forall_mem_map.mpr fun text _ => .string text)
  refine .object ?_
  simp only [List.forall_mem_cons]
  exact ⟨.string _, htexts record.attributes, htexts record.methods, List.forall_mem_nil _⟩

theorem ofJson?_toJson : ofJson? record.toJson = some record := by
  have htexts : ∀ texts : List String,
      (array (texts.map .string)).list? Json.text? = some texts := fun texts =>
    list?_array fun text _ => text?_string text
  refine (record?_object_bind (by rfl) (by decide) 0 _).trans ?_
  simp only [List.map_cons, List.map_nil, Option.bind_eq_bind, Option.bind_some, text?_string,
    htexts]

end ClassRecord

namespace Relationship

variable (relationship : Relationship)

theorem plain_toJson : relationship.toJson.Plain := by
  refine .object ?_
  simp only [List.forall_mem_cons]
  exact ⟨.string _, .string _, .string _, List.forall_mem_nil _⟩

theorem ofJson?_toJson : ofJson? relationship.toJson = some relationship := by
  refine (record?_object_bind (by rfl) (by decide) 0 _).trans ?_
  simp only [List.map_cons, List.map_nil, Option.bind_eq_bind, Option.bind_some, text?_string,
    RelationshipKind.ofJson?_name]

end Relationship

namespace Model

theorem plain_toJson (model : Model) : model.toJson.Plain := by
  have hclasses : (array (model.classes.toList.map ClassRecord.toJson)).Plain :=
    .array (List.forall_mem_map.mpr fun record _ => record.plain_toJson)
  have hrelationships :
      (array (model.relationships.toList.map Relationship.toJson)).Plain :=
    .array (List.forall_mem_map.mpr fun relationship _ => relationship.plain_toJson)
  refine .object ?_
  simp only [List.forall_mem_cons]
  exact ⟨hclasses, hrelationships, List.forall_mem_nil _⟩

/-- What is read of the JSON form of a model is the model of its parts. -/
theorem ofJson?_toJson (model : Model) :
    ofJson? model.toJson = some (ofParts model.classes.toList model.relationships.toList) := by
  have hclasses : listOrEmpty? ClassRecord.ofJson?
      (some (array (model.classes.toList.map ClassRecord.toJson))) = some model.classes.toList :=
    list?_array fun record _ => record.ofJson?_toJson
  have hrelationships : listOrEmpty? Relationship.ofJson?
      (some (array (model.relationships.toList.map Relationship.toJson))) =
        some model.relationships.toList :=
    list?_array fun relationship _ => relationship.ofJson?_toJson
  refine (record?_object_bind (by rfl) (by decide) 2 _).trans ?_
  simp only [List.map_cons, List.map_nil, Option.bind_eq_bind, hclasses, hrelationships,
    Option.bind_some]

/-- A model that can be made is read back from its text, with its index. -/
theorem Reachable.parse_render {model : Model} (hmodel : model.Reachable) (style : Style) :
    (Json.parse (model.toJson.render style)).bind ofJson? = some model := by
  rw [Json.parse_render model.plain_toJson style, Option.bind_some, ofJson?_toJson,
    hmodel.ofParts_eq]

/-- Whatever is read of a text can be made. -/
theorem reachable_of_read {text : String} {model : Model}
    (hread : (Json.parse text).bind ofJson? = some model) : model.Reachable := by
  have htake : (Model.empty.take (.read text)).1 = model := by rw [take, hread]
  exact htake ▸ .take .empty (.read text)

/-- The JSON form of a model loses nothing and repairs itself. A model that can be made is read back
from its text in either layout as it was, index included. Whatever text is read, the model is
consistent, its lookups agree with its classes, and it comes back from its own text. -/
theorem read_render_model :
    (∀ model : Model, model.Reachable → ∀ style : Style,
      (Json.parse (model.toJson.render style)).bind ofJson? = some model) ∧
    ∀ (text : String) (model : Model), (Json.parse text).bind ofJson? = some model →
      model.Consistent ∧ model.Agrees ∧ ∀ style : Style,
        (Json.parse (model.toJson.render style)).bind ofJson? = some model := by
  refine ⟨fun model hmodel => hmodel.parse_render, fun text model hread => ?_⟩
  have hmodel := reachable_of_read hread
  exact ⟨hmodel.consistent, hmodel.consistent.agrees, hmodel.parse_render⟩

/-- The form of a model with a repeated class, an unnamed one, a relationship that leads nowhere and
an index that does not fit. -/
def damaged : Json := .object [
  ("classes", .array ([⟨"A", ["-B b\n"], []⟩, ⟨"A", [], []⟩, ⟨"", [], []⟩,
    ⟨"B", [], ["+\"\\()"]⟩].map ClassRecord.toJson)),
  ("index", .natural 7),
  ("relationships", .array [.array [.string "A", .string "B", .string "composition"],
    .array [.string "A", .string "Z", .string "inheritance"]])]

theorem read_render_model_damaged :
    ∃ model : Model, (Json.parse (damaged.render .pretty)).bind ofJson? = some model ∧
      model.classes.toList = [⟨"A", ["-B b\n"], []⟩, ⟨"B", [], ["+\"\\()"]⟩] ∧
      model.relationships.toList = [⟨"A", "B", .composition⟩] ∧ model.Consistent ∧
      model.Reachable ∧ (Json.parse (model.toJson.render .compact)).bind ofJson? = some model := by
  have hplain : damaged.Plain := by
    refine .object ?_
    simp only [List.forall_mem_cons]
    refine ⟨.array ?_, .natural (by decide), .array ?_, List.forall_mem_nil _⟩
    · simp [ClassRecord.plain_toJson]
    · simp only [List.forall_mem_cons]
      exact ⟨.array (by simp [Plain.string]), .array (by simp [Plain.string]),
        List.forall_mem_nil _⟩
  have hread : (Json.parse (damaged.render .pretty)).bind ofJson? = some (ofParts
      [⟨"A", ["-B b\n"], []⟩, ⟨"A", [], []⟩, ⟨"", [], []⟩, ⟨"B", [], ["+\"\\()"]⟩]
      [⟨"A", "B", .composition⟩, ⟨"A", "Z", .inheritance⟩]) := by
    rw [Json.parse_render hplain, Option.bind_some]
    rfl
  have hmodel := reachable_of_read hread
  refine ⟨_, hread, ?_, ?_, (read_render_model.2 _ _ hread).1, hmodel,
    read_render_model.1 _ hmodel .compact⟩
  all_goals
    simp [ofParts, addClasses, addRelationships, addClass, addRelationship, contains, empty,
      ClassRecord.isUsable]

end Model

end ClassDiagram
