import ClassDiagram.Proofs.Extraction.Exact
import ClassDiagram.Proofs.Printed.Properties

/-!
# Accessors among the attributes

A modifier is the type of an attribute exactly if the attribute is written without a type. An
accessor with two access words is such an attribute. So the record of a class with properties lists
every property, and behind it the accessors that have several access words and no block. Here no
block starts with the keyword of an accessor: with several access words in front, one that does would
be read as the accessor list of a property.
-/

namespace ClassDiagram

open Text Source Printed

variable {language : Language}

/-! ## A class with properties -/

namespace Printed

/-- What stands between the braces of a class with properties. -/
def Class.propertyBody (c : Class language) (ms : List (PropertyText language))
    (view : Stretch → List Char) : List Char :=
  ms.flatMap (·.shown view) ++ c.closing.text

/-- A class with properties in place of its members. -/
def Class.textOfProperties (c : Class language) (ms : List (PropertyText language)) : List Char :=
  c.front ++ '{' :: (c.propertyBody ms Stretch.text ++ '}' :: c.after)

/-- The row of an accessor that is taken for a field: the access words behind the first one and the
keyword. An accessor with a block that starts with no accessor keyword is not taken for one, and
neither is one with a single access word or none. -/
def AccessorText.row? (a : AccessorText language) : Option (String × String) :=
  match a.access, a.body with
  | _, .block _ => none
  | first :: second :: others, _ =>
    let visibility := (Visibility.ofKeyword? first.word).getD .default
    let words := (second :: others).map (·.word.toList) ++ [a.keyword.toList]
    some (a.keyword, visibility.marker.toString ++ String.ofList ([' '].intercalate words))
  | _, _ => none

/-- The row of a property itself, which is shown without modifiers. -/
def PropertyText.row (m : PropertyText language) : String × String :=
  m.declarator.row (m.declarator.typeName ++ " " ++ String.ofList m.declarator.name.text)

/-- The rows of a property: its own, and those of its accessors. -/
def PropertyText.rows (m : PropertyText language) : List (String × String) :=
  m.row :: m.accessors.filterMap AccessorText.row?

theorem AccessorText.row?_eq_none_iff (a : AccessorText language) :
    a.row? = none ↔ a.access.length ≤ 1 ∨ ∃ b, a.body = .block b := by
  obtain ⟨before, access, keyword, mem, gap, body⟩ := a
  cases body with
  | semicolon => rcases access with _ | ⟨first, _ | ⟨second, others⟩⟩ <;> simp [row?]
  | expression s => rcases access with _ | ⟨first, _ | ⟨second, others⟩⟩ <;> simp [row?]
  | block b => simp [row?]

/-- A property has no further row exactly if no accessor has several access words without a block.
-/
theorem PropertyText.rows_eq_singleton_iff (m : PropertyText language) :
    m.rows = [m.row] ↔ ∀ a ∈ m.accessors, a.access.length ≤ 1 ∨ ∃ b, a.body = .block b := by
  rw [rows, List.cons_inj_right, List.filterMap_eq_nil_iff]
  exact forall₂_congr fun a _ => a.row?_eq_none_iff

/-- The field that an entry of a list of properties is found as, at a byte offset. -/
def Entry.field? (offset : Nat) : Entry language → Option Field
  | .property _ => none
  | .accessor a => a.fieldPhrase?.map fun p =>
      ⟨offset, p.visibility, String.ofList (normalizeBlanks p.type), String.ofList p.name,
        String.ofList (normalizeBlanks p.declarator)⟩

def Entry.property? (offset : Nat) : Entry language → Option Property
  | .property m => some (m.declarator.property offset)
  | .accessor _ => none

/-- What an entry of a list of properties puts among the attributes. -/
def Entry.signature? (offset : Nat) (entry : Entry language) : Option Signature :=
  ((entry.field? offset).map .ofField).or ((entry.property? offset).map .ofProperty)

/-! ## The rows of the entries -/

theorem Entry.row_accessor (a : AccessorText language) (offset : Nat) :
    ((Entry.accessor a).signature? offset).map Signature.row = a.row? := by
  rw [signature?, property?, Option.map_none, Option.or_none, field?, AccessorText.row?]
  split
  next b _ hbody =>
    have hnone : a.fieldPhrase? = none := by
      rw [AccessorText.fieldPhrase?, hbody]
      split <;> simp_all [AccessorBody.fieldTail?]
    rw [hnone]
    rfl
  next first second others haccess hbody =>
    obtain ⟨p, hphrase⟩ : ∃ p, a.fieldPhrase? = some p := by
      rw [AccessorText.fieldPhrase?, haccess]
      cases hshape : a.body with
      | semicolon => exact ⟨_, rfl⟩
      | expression s => exact ⟨_, rfl⟩
      | block b => exact (hbody b hshape).elim
    obtain ⟨_, _, _, hparts, hfirst, hname, hwords, _⟩ :=
      AccessorText.parts_of_fieldPhrase? hphrase
    rw [haccess] at hparts
    obtain ⟨rfl, rfl, rfl⟩ : _ ∧ _ ∧ _ := by simpa using hparts
    rw [hphrase]
    simp only [Option.map_some, Signature.ofField, Signature.row, Signature.marked,
      Member.Phrase.visibility, hfirst, hname, String.ofList_toList, normalizeBlanks, hwords]
  next hblock hnot =>
    cases hphrase : a.fieldPhrase? with
    | none => rfl
    | some p =>
        obtain ⟨first, second, others, haccess, _⟩ := AccessorText.parts_of_fieldPhrase? hphrase
        exact (hblock first second others haccess).elim

theorem rows_placedAccessors (start offset : Nat) (as : List (AccessorText language)) :
    ((placedAccessors offset as).filterMap fun (o, e) => e.signature? (start + o)).map
      Signature.row = as.filterMap AccessorText.row? := by
  induction as generalizing offset with
  | nil => rfl
  | cons a as ih =>
      rw [placedAccessors, List.filterMap_cons, List.filterMap_cons,
        ← Entry.row_accessor a (start + (offset + byteLength a.before.text)), ← ih]
      dsimp only
      cases (Entry.accessor a).signature? _ <;> rfl

theorem rows_placedProperties (start offset : Nat) (ms : List (PropertyText language)) :
    ((placedProperties offset ms).filterMap fun (o, e) => e.signature? (start + o)).map
      Signature.row = ms.flatMap PropertyText.rows := by
  induction ms generalizing offset with
  | nil => rfl
  | cons m ms ih =>
      rw [placedProperties, List.filterMap_append, List.map_append, ih, List.flatMap_cons,
        PropertyText.rows, ← rows_placedAccessors start (offset + byteLength m.front) m.accessors]
      rfl

end Printed

/-! ## The attributes of a class with properties -/

section Properties

variable (c : Class language) (ms : List (PropertyText language))

theorem ofSource_textOfProperties : Masked.ofSource (c.textOfProperties ms) =
    ⟨c.front ++ '{' :: (c.propertyBody ms Stretch.code ++
        '}' :: (Masked.ofSource c.after).code),
      c.front ++ '{' :: (c.propertyBody ms Stretch.skeleton ++
        '}' :: (Masked.ofSource c.after).skeleton)⟩ := by
  refine c.ofSource_around c.header.heading (fun h => ?_) c.after
  simp only [Class.propertyBody, List.append_assoc]
  exact masks_flatMap PropertyText.shown (fun m _ => m.masks) (masks_blanks c.closing.blank h)

/-- The declaration that a class with properties starts with. -/
def Printed.Class.propertyDeclaration : Declaration :=
  c.declarationAround c.header.heading (c.propertyBody ms Stretch.skeleton)

theorem find?_textOfProperties :
    Declaration.find? language (Masked.ofSource (c.textOfProperties ms)).skeleton =
      some (c.propertyDeclaration ms) := by
  rw [ofSource_textOfProperties]
  refine c.find?_around c.header.heading ((isBalanced_flatMap fun m _ => m.isBalanced).append ?_) _
  exact isBalanced_of_isSimple (isSimple_of_isBlank c.closing.blank)

theorem within_textOfProperties {form : Member.Form} {ends : List Char} (hform : form.Breaks ends)
    {phrase? : Entry language → Option Member.Phrase} (h : FindsInProperties form phrase?) :
    form.within (Masked.ofSource (c.textOfProperties ms)).skeleton (c.propertyDeclaration ms).body =
      (placedProperties 0 ms).filterMap fun (o, e) =>
        (phrase? e).map ((c.propertyDeclaration ms).body.start + o, ·) := by
  have hslice : slice (Masked.ofSource (c.textOfProperties ms)).skeleton
      (c.propertyDeclaration ms).body = c.propertyBody ms Stretch.skeleton := by
    rw [ofSource_textOfProperties]
    exact c.slice_around c.header.heading _ _
  rw [Member.Form.within, hslice, Class.propertyBody,
    occurrences_properties hform h ms c.closing.blank, found, List.map_filterMap]
  apply List.filterMap_congr
  intro entry _
  rw [Option.map_map]
  rfl

theorem fields_textOfProperties :
    Field.declared language (.ofSource (c.textOfProperties ms)) (c.propertyDeclaration ms).body =
      (placedProperties 0 ms).filterMap fun (o, e) =>
        e.field? ((c.propertyDeclaration ms).body.start + o) := by
  rw [Field.declared, within_textOfProperties c ms (Member.fieldForm_breaks language)
    findsInProperties_fieldForm, List.map_filterMap]
  apply List.filterMap_congr
  rintro ⟨o, e⟩ hmem
  cases e with
  | property m => rfl
  | accessor a =>
      obtain ⟨front, back, rfl, hparts⟩ := exists_code_of_mem_placedProperties hmem
      dsimp only [Entry.fieldPhrase?, Entry.field?]
      cases hphrase : a.fieldPhrase? with
      | none => rfl
      | some p =>
          obtain ⟨_, _, _, _, _, _, _, hbare⟩ := AccessorText.parts_of_fieldPhrase? hphrase
          let before := c.front ++ '{' :: front
          let after := a.ending Stretch.code ++
            (back ++ (c.closing.text ++ '}' :: (Masked.ofSource c.after).code))
          have hcode : (Masked.ofSource (c.textOfProperties ms)).code =
              before ++ (p.access ++ (p.declarator ++ after)) := by
            rw [ofSource_textOfProperties]
            simp [Class.propertyBody, hparts, hbare, before, after]
          have hstart : (c.propertyDeclaration ms).body.start + (0 + byteLength front) =
              byteLength before := by
            have hmark : '{'.utf8Size = 1 := by decide
            have hbody : (c.propertyDeclaration ms).body.start = byteLength c.front + 1 := rfl
            simp only [hbody, before, byteLength_append, byteLength_cons, hmark]
            omega
          rw [hcode, hstart]
          exact congrArg some (ofPhrase_append p before after)

theorem properties_textOfProperties :
    Property.declared language (Masked.ofSource (c.textOfProperties ms)).skeleton
        (c.propertyDeclaration ms).body =
      (placedProperties 0 ms).filterMap fun (o, e) =>
        e.property? ((c.propertyDeclaration ms).body.start + o) := by
  rw [Property.declared, within_textOfProperties c ms (Member.propertyForm_breaks language)
    findsInProperties_propertyForm, List.map_filterMap]
  apply List.filterMap_congr
  rintro ⟨o, e⟩ _
  cases e with
  | property m => exact congrArg some (m.declarator.property_ofPhrase _ _ _)
  | accessor a => rfl

theorem methods_textOfProperties :
    Method.declared language (.ofSource (c.textOfProperties ms)) (c.propertyDeclaration ms).body =
      [] := by
  rw [Method.declared, within_textOfProperties c ms (Member.methodForm_breaks language)
    findsInProperties_methodForm]
  simp

end Properties

theorem offset_signature?_entry {offset : Nat} {e : Entry language} {signature : Signature}
    (h : e.signature? offset = some signature) : signature.offset = offset := by
  cases e with
  | property m => exact (Option.some.inj h) ▸ rfl
  | accessor a =>
      rw [Entry.signature?, Entry.property?, Option.map_none, Option.or_none, Entry.field?,
        Option.map_map] at h
      obtain ⟨p, _, rfl⟩ := Option.map_eq_some_iff.mp h
      rfl

theorem attributes_textOfProperties (c : Class .csharp) (ms : List (PropertyText .csharp)) :
    Extraction.attributes .csharp (.ofSource (c.textOfProperties ms))
        (c.propertyDeclaration ms).body =
      (placedProperties 0 ms).filterMap fun (o, e) =>
        e.signature? ((c.propertyDeclaration ms).body.start + o) := by
  unfold Extraction.attributes
  rw [fields_textOfProperties, properties_textOfProperties, List.map_filterMap,
    List.map_filterMap]
  refine mergeSort_eq_of_perm Signature.offset
    (filterMap_append_perm _ _ _ fun ⟨o, e⟩ _ => ?_) ?_
  · cases e with
    | property m => exact .inl rfl
    | accessor a => exact .inr rfl
  · refine (pairwise_placedProperties 0 ms).1.filterMap _ fun a b hab x hx y hy => ?_
    rw [offset_signature?_entry hx, offset_signature?_entry hy]
    omega

/-- The record of a class with properties. -/
theorem extract_textOfProperties (c : Class .csharp) (ms : List (PropertyText .csharp)) :
    extract .fullSignature .csharp (c.textOfProperties ms) =
      ⟨String.ofList c.name.text, firstRows (ms.flatMap PropertyText.rows), []⟩ := by
  rw [extract, Extraction.ofMasked, find?_textOfProperties]
  simp only [Extraction.fullSignature, Signature.map_marked_firstOfEachName,
    attributes_textOfProperties, rows_placedProperties, methods_textOfProperties]
  rfl

/-- The type of a field or a property is a modifier exactly if it is declared without a type. Such
are the accessors with several access words: the record of a class with properties lists every
property, and behind it those of its accessors that have several access words and end with a
semicolon or an expression. An accessor with a block has no row, as no block here starts with the
keyword of an accessor. So a property has one row exactly if each of its accessors has one access
word at most or such a block. -/
theorem type_mem_modifiers_iff (language : Language) (source : List Char) (range : Span) :
    (∀ f ∈ Field.declared language (.ofSource source) range, f.type ∈ Language.modifiers ↔
      Member.IsTypeless language (Masked.ofSource source).skeleton range f.offset f.name) ∧
    (∀ p ∈ Property.declared language (Masked.ofSource source).skeleton range,
      p.type ∈ Language.modifiers ↔
        Member.IsTypeless language (Masked.ofSource source).skeleton range p.offset p.name) ∧
    ∀ (c : Class .csharp) (ms : List (PropertyText .csharp)),
      extract .fullSignature .csharp (c.textOfProperties ms) =
        ⟨String.ofList c.name.text, firstRows (ms.flatMap PropertyText.rows), []⟩ ∧
      ∀ m ∈ ms, m.rows = [m.row] ↔
        ∀ a ∈ m.accessors, a.access.length ≤ 1 ∨ ∃ b, a.body = .block b := by
  refine ⟨fun f hf => ?_, fun p hp => ?_, fun c ms =>
    ⟨extract_textOfProperties c ms, fun m _ => m.rows_eq_singleton_iff⟩⟩
  · obtain ⟨⟨o, phrase⟩, hmem, rfl⟩ := List.mem_map.mp hf
    exact (Member.fieldForm_isTyped language).type_mem_iff hmem
  · obtain ⟨⟨o, phrase⟩, hmem, rfl⟩ := List.mem_map.mp hp
    exact (Member.propertyForm_isTyped language).type_mem_iff hmem

namespace Printed

theorem internal_mem : "internal" ∈ Language.csharp.accessKeywords := by decide

/-- A property with an accessor of two access words. -/
def internalSetter : PropertyText .csharp where
  leading := .space
  declarator := {
    access := "public"
    access_mem := public_mem .csharp
    modifiers := []
    typeGap := .space
    type := ⟨⟨[], ⟨"int".toList, by decide⟩⟩, none, [], false⟩
    type_free := by decide +kernel
    nameGap := .space
    name := ⟨"Places".toList, by decide⟩
    name_free := by decide }
  before := .space
  first := ⟨.space, [], "get", by decide, .none, .semicolon⟩
  others := [⟨.space, [⟨"protected", by decide, .space⟩, ⟨"internal", internal_mem, .space⟩],
    "set", by decide, .none, .semicolon⟩]
  after := .space
  initializer := none

end Printed

/-- An accessor with two access words is shown as a field, with the second of them as its type. -/
theorem type_mem_modifiers_iff_internalSetter :
    sampleClass.textOfProperties [internalSetter] =
        "sealed class Garage { public int Places { get; protected internal set; } }".toList ∧
      extract .fullSignature .csharp (sampleClass.textOfProperties [internalSetter]) =
        ⟨"Garage", ["+int Places", "#internal set"], []⟩ ∧
      (Field.declared .csharp (.ofSource (sampleClass.textOfProperties [internalSetter]))
        (sampleClass.propertyDeclaration [internalSetter]).body).map (·.type) = ["internal"] ∧
      "internal" ∈ Language.modifiers := by
  refine ⟨by decide +kernel, ?_, by decide +kernel, by decide +kernel⟩
  rw [extract_textOfProperties]
  decide +kernel

end ClassDiagram
