import ClassDiagram.Extraction
import ClassDiagram.Resolution

/-!
# Literals

What a source declares is decided by its skeleton, in which the contents of literals are blank. The
code only supplies the text that is shown of a field or a method. Two sources with one skeleton
therefore declare the same type, members and relationships; their records may differ in that text
alone.
-/

namespace ClassDiagram

open Text Source

variable {source other : Masked} (h : source.skeleton = other.skeleton)

/-! ## Members -/

/-- A field without the text that is shown of it. -/
def Field.withoutText (field : Field) : Field := { field with signature := "" }

/-- A method without the text that is shown of it. -/
def Method.withoutText (method : Method) : Method := { method with signature := "" }

include h in
theorem Field.declared_congr (language : Language) (range : Span) :
    (declared language source range).map withoutText =
      (declared language other range).map withoutText := by
  rw [declared, declared, List.map_map, List.map_map, h]
  rfl

include h in
theorem Method.ofPhrase?_congr (stop offset : Nat) (p : Member.Phrase) :
    (ofPhrase? source stop offset p).map withoutText =
      (ofPhrase? other stop offset p).map withoutText := by
  unfold ofPhrase?
  rw [h]
  cases signatureEnd? other.skeleton stop (offset + byteLength p.text - 1) with
  | none => rfl
  | some signatureEnd => rfl

include h in
theorem Method.declared_congr (language : Language) (range : Span) :
    (declared language source range).map withoutText =
      (declared language other range).map withoutText := by
  rw [declared, declared, List.map_filterMap, List.map_filterMap, h]
  simp only [ofPhrase?_congr h]

/-! ## Signatures -/

namespace Signature

def withoutText (signature : Signature) : Signature := { signature with text := "" }

/-- Which signatures are the first of their name is decided by their names. -/
theorem map_withoutText_firstOfEachName (seen : List String) (signatures : List Signature) :
    (firstOfEachName seen signatures).map withoutText =
      firstOfEachName seen (signatures.map withoutText) := by
  induction signatures generalizing seen with
  | nil => rfl
  | cons signature signatures ih =>
      rw [List.map_cons, firstOfEachName, firstOfEachName]
      change _ = if seen.contains signature.name then _ else
        signature.withoutText :: firstOfEachName (signature.name :: seen) _
      split
      next => exact ih seen
      next => rw [List.map_cons, ih]

end Signature

namespace Extraction

include h in
theorem fields_congr (language : Language) (body : Span) :
    ((Field.declared language source body).map .ofField).map Signature.withoutText =
      ((Field.declared language other body).map .ofField).map Signature.withoutText := by
  have hfields := congrArg (List.map Signature.ofField) (Field.declared_congr h language body)
  rw [List.map_map, List.map_map] at hfields ⊢
  exact hfields

include h in
theorem methods_congr (language : Language) (body : Span) :
    ((Method.declared language source body).map .ofMethod).map Signature.withoutText =
      ((Method.declared language other body).map .ofMethod).map Signature.withoutText := by
  have hmethods := congrArg (List.map Signature.ofMethod) (Method.declared_congr h language body)
  rw [List.map_map, List.map_map] at hmethods ⊢
  exact hmethods

include h in
/-- The order of the attributes is decided by their offsets. -/
theorem attributes_congr (language : Language) (body : Span) :
    (attributes language source body).map Signature.withoutText =
      (attributes language other body).map Signature.withoutText := by
  unfold attributes
  cases language with
  | java => exact fields_congr h .java body
  | csharp =>
      have hsort : ∀ signatures : List Signature,
          (signatures.mergeSort fun a b => a.offset ≤ b.offset).map Signature.withoutText =
            (signatures.map Signature.withoutText).mergeSort fun a b => a.offset ≤ b.offset :=
        fun _ => List.map_mergeSort fun _ _ _ _ => rfl
      rw [hsort, hsort, List.map_append, List.map_append, fields_congr h, h]

include h in
/-- In name-only mode a record shows nothing that is cut from the code. -/
theorem nameOnly_congr (language : Language) (d : Declaration) :
    nameOnly language source d = nameOnly language other d := by
  have hfields := congrArg (List.map fun f => f.type ++ " " ++ f.name)
    (Field.declared_congr h language d.body)
  have hmethods := congrArg (List.map fun m => m.name ++ "()")
    (Method.declared_congr h language d.body)
  rw [List.map_map, List.map_map] at hfields hmethods
  simp only [nameOnly, ClassRecord.mk.injEq]
  exact ⟨trivial, hfields, hmethods⟩

include h in
/-- In full-signature mode the members that a record keeps differ in their text alone. -/
theorem fullSignature_congr (language : Language) (d : Declaration) :
    (fullSignature language source d).attributes.length =
        (fullSignature language other d).attributes.length ∧
      (fullSignature language source d).methods.length =
        (fullSignature language other d).methods.length := by
  have hkept : ∀ {signatures others : List Signature},
      signatures.map Signature.withoutText = others.map Signature.withoutText →
      ((Signature.firstOfEachName [] signatures).map (·.marked)).length =
        ((Signature.firstOfEachName [] others).map (·.marked)).length := by
    intro signatures others hsame
    have hfirst := congrArg (fun ss => (Signature.firstOfEachName [] ss).length) hsame
    simpa only [← Signature.map_withoutText_firstOfEachName, List.length_map] using hfirst
  exact ⟨hkept (attributes_congr h language d.body), hkept (methods_congr h language d.body)⟩

end Extraction

/-- What a source declares does not depend on the contents of its literals: they do not decide
which type and which members are found, where and under which names, nor what is resolved. -/
theorem literals_without_influence {source other : List Char}
    (h : (Masked.ofSource source).skeleton = (Masked.ofSource other).skeleton)
    (language : Language) :
    Declaration.find? language (Masked.ofSource source).skeleton =
        Declaration.find? language (Masked.ofSource other).skeleton ∧
      (∀ range : Span,
        (Field.declared language (.ofSource source) range).map Field.withoutText =
            (Field.declared language (.ofSource other) range).map Field.withoutText ∧
          (Method.declared language (.ofSource source) range).map Method.withoutText =
            (Method.declared language (.ofSource other) range).map Method.withoutText ∧
          Property.declared language (Masked.ofSource source).skeleton range =
            Property.declared language (Masked.ofSource other).skeleton range ∧
          Holder.fields language (Masked.ofSource source).skeleton range =
            Holder.fields language (Masked.ofSource other).skeleton range ∧
          Holder.autoProperties language (Masked.ofSource source).skeleton range =
            Holder.autoProperties language (Masked.ofSource other).skeleton range) ∧
      (∀ owner known, resolve language source owner known = resolve language other owner known) ∧
      extract .nameOnly language source = extract .nameOnly language other ∧
      (extract .fullSignature language source).name =
          (extract .fullSignature language other).name ∧
        (extract .fullSignature language source).attributes.length =
          (extract .fullSignature language other).attributes.length ∧
        (extract .fullSignature language source).methods.length =
          (extract .fullSignature language other).methods.length := by
  refine ⟨by rw [h], fun range => ?_, fun owner known => by rw [resolve, resolve, h], ?_, ?_⟩
  · exact ⟨Field.declared_congr h language range, Method.declared_congr h language range,
      by rw [h], by rw [h], by rw [h]⟩
  · unfold extract Extraction.ofMasked
    rw [h]
    cases Declaration.find? language (Masked.ofSource other).skeleton with
    | none => rfl
    | some d => exact Extraction.nameOnly_congr h language d
  · unfold extract Extraction.ofMasked
    rw [h]
    cases Declaration.find? language (Masked.ofSource other).skeleton with
    | none => exact ⟨rfl, rfl, rfl⟩
    | some d => exact ⟨rfl, Extraction.fullSignature_congr h language d⟩

/-- A class with a method whose parameter has the string `text` by default. -/
def classWithDefault (text : String) : List Char :=
  "class A : B \x7b public void F(string s = \"".toList ++ text.toList ++
    "\") \x7b \x7d \x7d".toList

/-- The default is shown in the record, but it decides nothing. -/
theorem literals_without_influence_default :
    (Masked.ofSource (classWithDefault "é)")).skeleton =
        (Masked.ofSource (classWithDefault "//;")).skeleton ∧
      extract .fullSignature .csharp (classWithDefault "é)") =
        ⟨"A", [], ["+void F(string s = \"é)\")"]⟩ ∧
      extract .fullSignature .csharp (classWithDefault "//;") =
        ⟨"A", [], ["+void F(string s = \"//;\")"]⟩ ∧
      extract .nameOnly .csharp (classWithDefault "é)") =
        extract .nameOnly .csharp (classWithDefault "//;") := by
  have hskeleton : (Masked.ofSource (classWithDefault "é)")).skeleton =
      (Masked.ofSource (classWithDefault "//;")).skeleton := by decide +kernel
  exact ⟨hskeleton, by decide +kernel, by decide +kernel,
    (literals_without_influence hskeleton .csharp).2.2.2.1⟩

end ClassDiagram
