import ClassDiagram.Extraction
import ClassDiagram.Proofs.Printed.Declared
import ClassDiagram.Proofs.Source.Order

/-!
# The record of a class

The record extracted from a source that starts with a class lists exactly the members of the
class, in the order in which they are written.
-/

namespace ClassDiagram

open Text Source Printed

variable {language : Language}

/-! ## The record of a class as it is written -/

namespace Printed

/-- A row of a full record, with the name of its member. -/
def Declarator.row (d : Declarator language) (text : String) : String × String :=
  (String.ofList d.name.text, d.visibility.marker.toString ++ text)

/-- The row of a member among the attributes. A field is shown with its modifiers, a property
without. -/
def Member.attribute? (m : Member language) : Option (String × String) :=
  match m.ending with
  | .field .. => some (m.declarator.row (String.ofList ([' '].intercalate m.declarator.words)))
  | .property .. => some (m.declarator.row
      (m.declarator.typeName ++ " " ++ String.ofList m.declarator.name.text))
  | .method .. => none

/-- The row of a member among the methods: its text from the modifiers to the clauses, with single
spaces between the words and without comments. -/
def Member.operation? (m : Member language) : Option (String × String) :=
  match m.ending with
  | .method gap parameters clauses _ => some (m.declarator.row (String.ofList (normalizeBlanks
      (m.declarator.afterAccess ++ (gap.text ++ '(' :: (parameters.code ++ ')' :: clauses.code))))))
  | _ => none

def Member.plainAttribute? (m : Member language) : Option String :=
  match m.ending with
  | .field .. => some (m.declarator.typeName ++ " " ++ String.ofList m.declarator.name.text)
  | _ => none

def Member.plainOperation? (m : Member language) : Option String :=
  match m.ending with
  | .method .. => some (String.ofList m.declarator.name.text ++ "()")
  | _ => none

/-- What a full record shows of rows: the first of each name. -/
def firstRows (rows : List (String × String)) : List String :=
  (rows.eraseDupsBy fun a b => a.1 == b.1).map (·.2)

def Class.record (c : Class language) : ExtractionMode → ClassRecord
  | .nameOnly => {
      name := String.ofList c.name.text
      attributes := c.members.filterMap Member.plainAttribute?
      methods := c.members.filterMap Member.plainOperation? }
  | .fullSignature => {
      name := String.ofList c.name.text
      attributes := firstRows (c.members.filterMap Member.attribute?)
      methods := firstRows (c.members.filterMap Member.operation?) }

end Printed

/-! ## The first member of each name -/

theorem eraseDupsBy_map {α β : Type} (f : α → β) (r : β → β → Bool) (xs : List α) :
    (xs.map f).eraseDupsBy r = (xs.eraseDupsBy fun a b => r (f a) (f b)).map f := by
  induction hn : xs.length using Nat.strongRecOn generalizing xs with
  | ind n ih =>
      cases xs with
      | nil => rfl
      | cons x xs =>
          have hshort : (xs.filter fun y => r (f y) (f x) = false).length < n := by
            rw [← hn, List.length_cons]
            exact Nat.lt_succ_of_le (List.length_filter_le _ _)
          rw [List.map_cons, List.eraseDupsBy_cons, List.eraseDupsBy_cons, List.map_cons,
            List.filter_map, Function.comp_def, ih _ hshort _ rfl]

theorem Signature.firstOfEachName_eq (seen : List String) (signatures : List Signature) :
    firstOfEachName seen signatures =
      (signatures.filter fun s => !seen.contains s.name).eraseDupsBy fun a b => a.name == b.name := by
  induction signatures generalizing seen with
  | nil => rfl
  | cons signature signatures ih =>
      rw [firstOfEachName]
      split
      next hseen => rw [ih, List.filter_cons_of_neg (by rw [hseen]; decide)]
      next hseen =>
        rw [Bool.not_eq_true] at hseen
        rw [ih, List.filter_cons_of_pos (by rw [hseen]; rfl), List.eraseDupsBy_cons,
          List.filter_filter]
        congr 2
        apply List.filter_congr
        intro other _
        rw [List.contains_cons, Bool.not_or]
        cases other.name == signature.name <;> simp

def Signature.row (signature : Signature) : String × String := (signature.name, signature.marked)

theorem Signature.map_marked_firstOfEachName (signatures : List Signature) :
    (firstOfEachName [] signatures).map (·.marked) = firstRows (signatures.map row) := by
  rw [firstOfEachName_eq, firstRows, eraseDupsBy_map, List.map_map]
  simp only [List.contains_nil, Bool.not_false, List.filter_true]
  rfl

/-! ## Extraction is exact -/

/-- The signature of a member among the attributes, in a body that starts at a byte offset. -/
def signature? (start : Nat) (entry : Nat × Member language) : Option Signature :=
  ((entry.2.field? (start + entry.1)).map .ofField).or
    ((entry.2.property? (start + entry.1)).map .ofProperty)

theorem Printed.Member.property?_java (m : Member .java) (offset : Nat) :
    m.property? offset = none := by
  obtain ⟨leading, d, ending⟩ := m
  cases ending with
  | field gap initializer => rfl
  | method gap parameters clauses body => rfl
  | property hcsharp accessors initializer => exact absurd hcsharp (by decide)

/-- A member is not both a field and a property. -/
theorem Printed.Member.field?_or_property? (m : Member language) (offset : Nat) :
    m.field? offset = none ∨ m.property? offset = none := by
  obtain ⟨leading, d, ending⟩ := m
  cases ending with
  | field gap initializer => exact .inr rfl
  | method gap parameters clauses body => exact .inl rfl
  | property hcsharp accessors initializer => exact .inl rfl

theorem offset_signature? {start : Nat} {entry : Nat × Member language} {signature : Signature}
    (h : signature? start entry = some signature) : signature.offset = start + entry.1 := by
  obtain ⟨o, leading, d, ending⟩ := entry
  cases ending with
  | field gap initializer => exact (Option.some.inj h) ▸ rfl
  | method gap parameters clauses body =>
      exact absurd h (by simp [signature?, Member.field?, Member.property?])
  | property hcsharp accessors initializer => exact (Option.some.inj h) ▸ rfl

theorem attributes_eq (c : Class language)
    (hlacks : ∀ m ∈ c.members, m.Lacks language.accessKeywords) :
    Extraction.attributes language (.ofSource c.text) c.declaration.body =
      (placed 0 c.members).filterMap (signature? c.declaration.body.start) := by
  unfold Extraction.attributes
  rw [c.declared_fields hlacks, c.declared_properties hlacks, List.map_filterMap,
    List.map_filterMap]
  cases language with
  | java =>
      -- Without properties there is nothing to sort.
      apply List.filterMap_congr
      rintro ⟨o, m⟩ _
      rw [signature?, Member.property?_java, Option.map_none, Option.or_none]
  | csharp =>
      refine mergeSort_eq_of_perm Signature.offset
        (filterMap_append_perm _ _ _ fun ⟨o, m⟩ _ => ?_) ?_
      · rcases m.field?_or_property? (c.declaration.body.start + o) with h | h
        · exact .inl (by simp [h])
        · exact .inr (by simp [h])
      · refine (pairwise_placed 0 c.members).1.filterMap _ fun a b hab x hx y hy => ?_
        rw [offset_signature? hx, offset_signature? hy]
        omega

/-- The record extracted from a class lists its members, if no stretch mentions an access keyword.
-/
theorem extract_text (mode : ExtractionMode) (c : Class language)
    (hlacks : ∀ m ∈ c.members, m.Lacks language.accessKeywords) :
    extract mode language c.text = c.record mode := by
  rw [extract, Extraction.ofMasked, c.find?_text]
  cases mode with
  | nameOnly =>
      have hattributes : (Field.declared language (.ofSource c.text) c.declaration.body).map
          (fun f => f.type ++ " " ++ f.name) = c.members.filterMap Member.plainAttribute? := by
        rw [c.declared_fields hlacks, List.map_filterMap]
        refine filterMap_placed (fun o m => ?_) 0 c.members
        obtain ⟨leading, d, ending⟩ := m
        cases ending <;> rfl
      have hmethods : (Method.declared language (.ofSource c.text) c.declaration.body).map
          (fun m => m.name ++ "()") = c.members.filterMap Member.plainOperation? := by
        rw [c.declared_methods hlacks, List.map_filterMap]
        refine filterMap_placed (fun o m => ?_) 0 c.members
        obtain ⟨leading, d, ending⟩ := m
        cases ending <;> rfl
      simp only [Extraction.nameOnly, hattributes, hmethods]
      rfl
  | fullSignature =>
      have hattributes : (Extraction.attributes language (.ofSource c.text) c.declaration.body).map
          Signature.row = c.members.filterMap Member.attribute? := by
        rw [attributes_eq c hlacks, List.map_filterMap]
        refine filterMap_placed (fun o m => ?_) 0 c.members
        obtain ⟨leading, d, ending⟩ := m
        cases ending <;> rfl
      have hmethods : ((Method.declared language (.ofSource c.text) c.declaration.body).map
          .ofMethod).map Signature.row = c.members.filterMap Member.operation? := by
        rw [c.declared_methods hlacks, List.map_filterMap, List.map_filterMap]
        refine filterMap_placed (fun o m => ?_) 0 c.members
        obtain ⟨leading, d, ending⟩ := m
        cases ending <;> rfl
      simp only [Extraction.fullSignature, Signature.map_marked_firstOfEachName, hattributes,
        hmethods]
      rfl

namespace Printed

/-- A class with members of every kind, and a literal that looks like a member. -/
def sampleClass : Class .csharp where
  leading := .none
  modifiers := [⟨⟨"sealed".toList, by decide⟩, .space, by decide⟩]
  keyword := "class"
  mem := class_mem .csharp
  gap := .space
  name := ⟨"Garage".toList, by decide⟩
  header := .space
  members := [
    { leading := .space
      declarator := {
        access := "private"
        access_mem := by decide
        modifiers := [⟨.space, "readonly", by decide⟩]
        typeGap := .space
        type := ⟨⟨[], ⟨"Map".toList, by decide⟩⟩,
          some ⟨⟨.none, "int,  List<Car>".toList, by decide⟩, by decide⟩,
          [⟨.none, [], by decide⟩], true⟩
        type_free := by decide +kernel
        nameGap := .space
        name := ⟨"cars".toList, by decide⟩
        name_free := by decide }
      ending := .field .space (some ⟨" new(\"private int x;\")".toList, by decide +kernel,
        by decide +kernel⟩) },
    { leading := .space
      declarator := {
        access := "public"
        access_mem := by decide
        modifiers := [⟨.space, "virtual", by decide⟩]
        typeGap := .space
        type := ⟨⟨[], ⟨"string".toList, by decide⟩⟩, none, [], false⟩
        type_free := by decide +kernel
        nameGap := .space
        name := ⟨"Name".toList, by decide⟩
        name_free := by decide }
      ending := .property rfl {
        before := .space
        getter := ⟨.space, none, "get", by decide, .none⟩
        setter := ⟨.space, some ⟨"private", by decide, .space⟩, "set", by decide, .none⟩
        after := .space } none },
    { leading := .space
      declarator := {
        access := "internal"
        access_mem := by decide
        modifiers := []
        typeGap := .space
        type := ⟨⟨[], ⟨"Car".toList, by decide⟩⟩, none, [], false⟩
        type_free := by decide +kernel
        nameGap := .space
        name := ⟨"Park".toList, by decide⟩
        name_free := by decide }
      ending := .method .none
        ⟨⟨"int  slot".toList, by decide, by decide +kernel⟩, by decide +kernel⟩ .space
        (some ⟨" if (true) { return null; } ".toList, by decide +kernel, by decide +kernel⟩) }]
  closing := .space
  after := []

end Printed

theorem extract_text_sampleClass :
    (∀ m ∈ sampleClass.members, m.Lacks Language.csharp.accessKeywords) ∧
      extract .fullSignature .csharp sampleClass.text =
        ⟨"Garage", ["-readonly Map<int, List<Car>>[]? cars", "+string Name"],
          ["#Car Park(int slot)"]⟩ := by
  have hlacks : ∀ m ∈ sampleClass.members, m.Lacks Language.csharp.accessKeywords := by
    decide +kernel
  refine ⟨hlacks, (extract_text .fullSignature sampleClass hlacks).trans ?_⟩
  decide +kernel

/-- A class with a method that declares a class of its own. -/
def Printed.localClass : Class .java :=
  methodClass ⟨" class L { private int y; } ".toList, by decide +kernel, by decide +kernel⟩

/-- A class inside a method is no class of its own: its members count as those of the class around
the method. -/
theorem extract_text_localClass :
    localClass.text = "class A { public void f() { class L { private int y; } } }".toList ∧
      extract .fullSignature .java localClass.text = ⟨"A", ["-int y"], ["+void f()"]⟩ ∧
      extract .fullSignature .java localClass.text ≠ localClass.record .fullSignature := by
  refine ⟨by decide +kernel, by decide +kernel, by decide +kernel⟩

end ClassDiagram
