import ClassDiagram.Layout.Grid
import ClassDiagram.Proofs.Text.Blank
import Mathlib.Data.List.Nodup

/-!
# Identifiers

Everything that is drawn has an identifier, which is put together from fixed words and from
positions in decimal digits. What it identifies can be read off it, so that two things never have
the same identifier, however many of them there are.
-/

namespace ClassDiagram

open Text

theorem toList_numbered (stem : String) (n : Nat) :
    (stem ++ toString n).toList = stem.toList ++ Nat.toDigits 10 n := by
  rw [String.toList_append, Nat.toString_eq_repr, Nat.toList_repr]

theorem toDigits_injective : Function.Injective (Nat.toDigits 10) := by
  intro m n h
  rw [← @Nat.ofDigitChars_ten_toDigits m, h, Nat.ofDigitChars_ten_toDigits]

/-- A number and a stem that comes before it. -/
theorem numbered_injective (stem : String) :
    Function.Injective fun n : Nat => stem ++ toString n := by
  intro m n h
  have hletters := congrArg String.toList h
  rw [toList_numbered, toList_numbered, List.append_cancel_left_eq] at hletters
  exact toDigits_injective hletters

/-- What follows a number and does not start with a digit can be told apart from it. -/
theorem toDigits_append_inj {m n : Nat} {s t : List Char} (hs : ∀ c ∈ s.head?, c.isDigit = false)
    (ht : ∀ c ∈ t.head?, c.isDigit = false)
    (h : Nat.toDigits 10 m ++ s = Nat.toDigits 10 n ++ t) : m = n ∧ s = t := by
  obtain ⟨hnumber, hrest⟩ := append_inj_of_head (fun _ => isDigit_of_mem_toDigits)
    (fun _ => isDigit_of_mem_toDigits) hs ht h
  exact ⟨toDigits_injective hnumber, hrest⟩

/-! ## Parts of a box -/

/-- What has an identifier in a box, the box itself included. -/
inductive BoxPart
  | whole
  | attributeRow (number : Nat)
  | separator
  | methodRow (number : Nat)

namespace BoxPart

/-- What the identifier of a part has behind that of its box. -/
def text : BoxPart → String
  | whole => ""
  | attributeRow number => "_attr" ++ toString number
  | separator => "_separator"
  | methodRow number => "_method" ++ toString number

theorem toList_text (part : BoxPart) : part.text.toList =
    match part with
    | whole => []
    | attributeRow number => ['_', 'a', 't', 't', 'r'] ++ Nat.toDigits 10 number
    | separator => ['_', 's', 'e', 'p', 'a', 'r', 'a', 't', 'o', 'r']
    | methodRow number => ['_', 'm', 'e', 't', 'h', 'o', 'd'] ++ Nat.toDigits 10 number := by
  cases part with
  | whole => rfl
  | separator => rfl
  | attributeRow number => exact toList_numbered "_attr" number
  | methodRow number => exact toList_numbered "_method" number

/-- No part starts with a digit, which would belong to the position of the box. -/
theorem head_text (part : BoxPart) : ∀ c ∈ part.text.toList.head?, c.isDigit = false := by
  rw [toList_text]
  cases part <;> simp

theorem text_injective : Function.Injective text := by
  intro a b h
  have hletters := congrArg String.toList h
  rw [toList_text, toList_text] at hletters
  cases a with
  | whole => cases b <;> simp_all
  | separator => cases b <;> simp_all
  | attributeRow m =>
      cases b with
      | attributeRow n => rw [numbered_injective _ h]
      | _ => simp_all
  | methodRow m =>
      cases b with
      | methodRow n => rw [numbered_injective _ h]
      | _ => simp_all

/-- The parts of the box of a class, from top to bottom. -/
def ofRecord (record : ClassRecord) : List BoxPart :=
  whole :: (List.range record.attributes.length).map attributeRow
    ++ (if 0 < record.attributes.length ∧ 0 < record.methods.length then [separator] else [])
    ++ (List.range record.methods.length).map methodRow

theorem nodup_ofRecord (record : ClassRecord) : (ofRecord record).Nodup := by
  have hattributes : ((List.range record.attributes.length).map attributeRow).Nodup :=
    List.nodup_range.map fun _ _ h => attributeRow.inj h
  have hmethods : ((List.range record.methods.length).map methodRow).Nodup :=
    List.nodup_range.map fun _ _ h => methodRow.inj h
  unfold ofRecord
  split <;> simp [List.nodup_append, hattributes, hmethods]

end BoxPart

/-! ## Cells -/

/-- What has an identifier in a document. -/
inductive CellId
  | page
  | layer
  | box (position : Nat) (part : BoxPart)
  | edge (number : Nat)

namespace CellId

/-- The identifier as it is written. -/
def text : CellId → String
  | page => "0"
  | layer => "1"
  | box position part => Grid.boxId position ++ part.text
  | edge number => "rel" ++ toString number

theorem toList_text (id : CellId) : id.text.toList =
    match id with
    | page => ['0']
    | layer => ['1']
    | box position part =>
      ['c', 'l', 'a', 's', 's'] ++ (Nat.toDigits 10 position ++ part.text.toList)
    | edge number => ['r', 'e', 'l'] ++ Nat.toDigits 10 number := by
  cases id with
  | page => rfl
  | layer => rfl
  | edge number => exact toList_numbered "rel" number
  | box position part =>
      rw [text, String.toList_append, Grid.boxId, toList_numbered, List.append_assoc]
      rfl

/-- Two things that are drawn have different identifiers. -/
theorem text_injective : Function.Injective text := by
  intro a b h
  have hletters := congrArg String.toList h
  rw [toList_text, toList_text] at hletters
  cases a with
  | page => cases b <;> simp_all
  | layer => cases b <;> simp_all
  | box i part =>
      cases b with
      | box j other =>
          obtain ⟨rfl, hrest⟩ := toDigits_append_inj part.head_text other.head_text
            (List.append_cancel_left hletters)
          rw [BoxPart.text_injective (String.toList_inj.mp hrest)]
      | _ => simp_all
  | edge m =>
      cases b with
      | edge n => rw [numbered_injective _ h]
      | _ => simp_all

/-- What is drawn of classes, the first of them at a position. -/
def ofRecords (position : Nat) : List ClassRecord → List CellId
  | [] => []
  | record :: rest => (BoxPart.ofRecord record).map (box position) ++ ofRecords (position + 1) rest

/-- What is drawn of a model, in the order of its document. -/
def ofModel (model : Model) : List CellId :=
  page :: layer :: ofRecords 0 model.classes.toList
    ++ (List.range model.relationships.size).map edge

theorem exists_of_mem_ofRecords {position : Nat} {records : List ClassRecord} {id : CellId}
    (h : id ∈ ofRecords position records) : ∃ p part, position ≤ p ∧ id = box p part := by
  induction records generalizing position with
  | nil => exact absurd h List.not_mem_nil
  | cons record rest ih =>
      rcases List.mem_append.mp h with hown | hrest
      · obtain ⟨part, _, rfl⟩ := List.mem_map.mp hown
        exact ⟨position, part, Nat.le_refl _, rfl⟩
      · obtain ⟨p, part, hp, rfl⟩ := ih hrest
        exact ⟨p, part, Nat.le_of_succ_le hp, rfl⟩

theorem nodup_ofRecords (position : Nat) (records : List ClassRecord) :
    (ofRecords position records).Nodup := by
  induction records generalizing position with
  | nil => exact List.nodup_nil
  | cons record rest ih =>
      have hown : ((BoxPart.ofRecord record).map (box position)).Nodup :=
        (BoxPart.nodup_ofRecord record).map fun _ _ h => (box.inj h).2
      refine List.nodup_append.mpr ⟨hown, ih (position + 1), ?_⟩
      rintro a ha b hb rfl
      -- The boxes of the rest stand at later positions.
      obtain ⟨part, _, rfl⟩ := List.mem_map.mp ha
      obtain ⟨p, other, hp, heq⟩ := exists_of_mem_ofRecords hb
      exact absurd (box.inj heq).1 (Nat.ne_of_lt hp)

theorem nodup_ofModel (model : Model) : (ofModel model).Nodup := by
  have hedges : ((List.range model.relationships.size).map edge).Nodup :=
    List.nodup_range.map fun _ _ h => edge.inj h
  -- Of classes only boxes are drawn, so nothing else is drawn twice.
  have hboxes : ∀ id : CellId, (∀ p part, id ≠ box p part) →
      id ∉ ofRecords 0 model.classes.toList := by
    intro id hid hmem
    obtain ⟨p, part, _, rfl⟩ := exists_of_mem_ofRecords hmem
    exact hid p part rfl
  have hapart : ∀ a ∈ ofRecords 0 model.classes.toList,
      ∀ b ∈ (List.range model.relationships.size).map edge, a ≠ b := by
    rintro a ha b hb rfl
    obtain ⟨n, _, rfl⟩ := List.mem_map.mp hb
    exact hboxes (edge n) (fun _ _ => nofun) ha
  have hdrawn := List.nodup_append.mpr ⟨nodup_ofRecords 0 _, hedges, hapart⟩
  simp [ofModel, hdrawn, hboxes page (fun _ _ => nofun), hboxes layer (fun _ _ => nofun)]

end CellId

end ClassDiagram
