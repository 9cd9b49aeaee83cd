import ClassDiagram.Proofs.Batch.Conservation
import ClassDiagram.Proofs.Printed.Class

/-!
# The name of a declaration

A declaration is named by the identifier after the first declaration keyword that has one. A
declaration keyword is an identifier as well. So where two of them follow each other, the second
one is taken for the name, and this is the only way in which a keyword becomes one.
-/

namespace ClassDiagram

open Text Source

variable {language : Language}

namespace Declaration

/-- The first words of a text that open a declaration are `keyword` and the identifier `name`. -/
def IsOpenedBy (language : Language) (skeleton : List Char) (keyword name : String) : Prop :=
  keyword ∈ language.declarationKeywords ∧ IsIdentifier name.toList ∧
    ∃ front gap rest, skeleton = front ++ (keyword.toList ++ (gap ++ (name.toList ++ rest))) ∧
      gap ≠ [] ∧ (∀ c ∈ gap, isBlank c = true) ∧ (∀ c ∈ rest.head?, isWord c = false) ∧
      startsWord (lastOf none front) = true ∧
      IsQuiet (opening? language) none front (keyword.toList ++ (gap ++ (name.toList ++ rest)))

/-- The keyword and the name of the declaration that is found are the words that open it. -/
theorem exists_find?_iff {skeleton : List Char} {keyword name : String} :
    (∃ d, find? language skeleton = some d ∧ d.keyword = keyword ∧ d.name = name) ↔
      IsOpenedBy language skeleton keyword name := by
  constructor
  · rintro ⟨d, hfind, rfl, rfl⟩
    rw [find?] at hfind
    split at hfind
    next => exact absurd hfind (by simp)
    next o opening others hoccurs =>
      obtain rfl := Option.some.inj hfind
      obtain ⟨front, back, rfl, _, hstart, hread, hquiet⟩ := occurrencesFrom_eq_cons hoccurs
      obtain ⟨rfl, hkeyword, hne, hgap, hname, hrest⟩ := opening?_eq_some_iff.mp hread
      refine ⟨hkeyword, by simpa using hname, front, opening.gap, opening.rest, ?_, hne, hgap,
        hrest, hstart, ?_⟩
      · simp [Opening.text]
      · simpa [Opening.text] using hquiet
  · rintro ⟨hkeyword, hname, front, gap, rest, rfl, hne, hgap, hrest, hstart, hquiet⟩
    let o : Opening := ⟨keyword.toList, gap, name.toList, rest⟩
    have hopened : o.IsRead language := ⟨by simpa [o] using hkeyword, hne, hgap, hname, hrest⟩
    have htext : keyword.toList ++ (gap ++ (name.toList ++ rest)) = o.text ++ rest := by
      simp [o, Opening.text]
    have hread : opening? language (o.text ++ rest) = some o :=
      opening?_eq_some_iff.mpr ⟨rfl, hopened⟩
    rw [htext] at hquiet ⊢
    have hoccurs := occurrencesFrom_of_quiet (·.text.length) hquiet 0
    rw [occurrencesFrom_phrase hstart hopened.text_ne_nil hread rfl] at hoccurs
    rw [find?, occurrences, hoccurs]
    exact ⟨_, rfl, by simp [o], by simp [o]⟩

end Declaration

/-! ## Names that are keywords -/

/-- The name of a record is that of the first declaration of its source. -/
theorem extract_name (mode : ExtractionMode) (language : Language) (source : List Char) :
    (extract mode language source).name =
      ((Declaration.find? language (Masked.ofSource source).skeleton).map (·.name)).getD "" := by
  rw [extract, Extraction.ofMasked]
  split
  next hfind => rw [hfind]; rfl
  next d hfind => rw [hfind]; cases mode <;> rfl

/-- A declaration keyword is followed by another one, before anything else is declared. -/
def Declaration.OpensTwice (language : Language) (skeleton : List Char) : Prop :=
  ∃ first ∈ language.declarationKeywords, ∃ second ∈ language.declarationKeywords,
    IsOpenedBy language skeleton first second

theorem Declaration.name_mem_iff {skeleton : List Char} {d : Declaration}
    (hfind : find? language skeleton = some d) :
    d.name ∈ language.declarationKeywords ↔ OpensTwice language skeleton := by
  constructor
  · intro hname
    have hopened := exists_find?_iff.mp ⟨d, hfind, rfl, rfl⟩
    exact ⟨d.keyword, hopened.1, d.name, hname, hopened⟩
  · rintro ⟨first, _, second, hsecond, hopened⟩
    obtain ⟨d', hfind', _, rfl⟩ := exists_find?_iff.mpr hopened
    rw [hfind] at hfind'
    exact Option.some.inj hfind' ▸ hsecond

theorem name_extract_mem_iff (mode : ExtractionMode) (source : List Char) :
    (extract mode language source).name ∈ language.declarationKeywords ↔
      Declaration.OpensTwice language (Masked.ofSource source).skeleton := by
  rw [extract_name]
  cases hfind : Declaration.find? language (Masked.ofSource source).skeleton with
  | some d => exact Declaration.name_mem_iff hfind
  | none =>
      constructor
      · intro hempty
        exact absurd hempty (by cases language <;> decide)
      · rintro ⟨first, _, second, _, hopened⟩
        obtain ⟨d, hfind', _⟩ := Declaration.exists_find?_iff.mpr hopened
        rw [hfind] at hfind'
        exact absurd hfind' (by simp)

namespace Printed

/-- A source that starts with two declaration keywords, as in `record struct`. -/
structure DoubleOpening (language : Language) where
  leading : Blanks
  modifiers : List (ClassModifier language)
  first : String
  first_mem : first ∈ language.declarationKeywords
  gap : Gap
  second : String
  second_mem : second ∈ language.declarationKeywords
  after : Gap

namespace DoubleOpening

variable (o : DoubleOpening language)

def prelude : List Char :=
  o.leading.text ++ o.modifiers.flatMap fun m => m.word.text ++ m.gap.text

def text : List Char :=
  o.prelude ++ (o.first.toList ++ (o.gap.text ++ (o.second.toList ++ o.after.text)))

theorem masks : Masks o.text (.plain o.text) := by
  have hkeywords := isIdentifier_declarationKeywords language
  have hparts := masks_blanks o.leading.blank (Class.masks_modifiers o.modifiers
    (masks_word (hkeywords _ o.first_mem).isWord (masks_blanks o.gap.blank
      (masks_word (hkeywords _ o.second_mem).isWord (masks_blanks o.after.blank masks_nil)))))
  simpa [text, prelude, Masked.plain] using hparts

/-- The second keyword is read as the name. -/
theorem isOpenedBy (rest : List Char) : Declaration.IsOpenedBy language
    (Masked.ofSource (o.text ++ rest)).skeleton o.first o.second := by
  have hkeywords := isIdentifier_declarationKeywords language
  refine ⟨o.first_mem, hkeywords _ o.second_mem, o.prelude, o.gap.text,
    o.after.text ++ (Masked.ofSource rest).skeleton, ?_, o.gap.ne_nil, o.gap.blank, ?_, ?_, ?_⟩
  · rw [o.masks.ofSource_append rest]
    change o.text ++ _ = _
    simp [text]
  · exact forall_mem_head_gap isWord_of_isBlank o.after.ne_nil o.after.blank _
  · rw [prelude, lastOf_append]
    exact Class.startsWord_modifiers _ (startsWord_lastOf_blanks rfl o.leading.blank)
  · exact isQuiet_blanks_append (Declaration.opensWith_opening? language) hkeywords o.leading.blank
      (Class.isQuiet_modifiers o.modifiers _ _)

theorem name_extract (mode : ExtractionMode) (rest : List Char) :
    (extract mode language (o.text ++ rest)).name = o.second := by
  obtain ⟨d, hfind, _, hname⟩ := Declaration.exists_find?_iff.mpr (o.isOpenedBy rest)
  rw [extract_name, hfind]
  exact hname

end DoubleOpening

end Printed

/-- The record of an accepted file is the record of its text. -/
theorem Batch.record_of_mem_accepted {settings : BatchSettings} {files : List SourceFile}
    {a : Accepted} (ha : a ∈ accepted (outcomes settings [] files)) :
    a.record = extract settings.mode a.language a.text.toList := by
  obtain ⟨_, _, _, _, hjudged⟩ := judged_of_mem_outcomes (mem_accepted_iff.mp ha)
  cases hjudged with
  | accepted => rfl

/-- The name that is found in a source is an identifier. It is a declaration keyword exactly if
the first keyword that opens a declaration is followed by another one; then that other one is the
name, whatever follows it. The same holds for the classes in the model of a batch. -/
theorem declaration_name_iff (language : Language) :
    (∀ source d, Declaration.find? language (Masked.ofSource source).skeleton = some d →
      IsIdentifier d.name.toList ∧ (d.name ∈ language.declarationKeywords ↔
        Declaration.OpensTwice language (Masked.ofSource source).skeleton)) ∧
    (∀ mode source, (extract mode language source).name ∈ language.declarationKeywords ↔
      Declaration.OpensTwice language (Masked.ofSource source).skeleton) ∧
    (∀ settings files assembly, assemble settings files = .ok assembly →
      ∀ record ∈ assembly.model.classes.toList,
        ∃ a ∈ Batch.accepted (Batch.outcomes settings [] files), a.record = record ∧
          (record.name ∈ a.language.declarationKeywords ↔
            Declaration.OpensTwice a.language (Masked.ofSource a.text.toList).skeleton)) ∧
    ∀ (o : Printed.DoubleOpening language) mode rest,
      (extract mode language (o.text ++ rest)).name = o.second := by
  refine ⟨fun source d hfind => ⟨?_, Declaration.name_mem_iff hfind⟩,
    fun mode source => name_extract_mem_iff mode source, ?_,
    fun o mode rest => o.name_extract mode rest⟩
  · exact (Declaration.exists_find?_iff.mp ⟨d, hfind, rfl, rfl⟩).2.1
  · intro settings files assembly hok record hrecord
    have hvalid : settings.validate = .ok () := by
      cases hvalidate : settings.validate with
      | ok => rfl
      | error failure => simp [assemble, hvalidate, bind, Except.bind] at hok
    obtain rfl := Except.ok.inj (hok.symm.trans (Batch.assemble_eq_ok hvalid files))
    rw [Batch.classes_modelOf] at hrecord
    obtain ⟨a, ha, rfl⟩ := List.mem_map.mp hrecord
    refine ⟨a, ha, rfl, ?_⟩
    rw [Batch.record_of_mem_accepted ha]
    exact name_extract_mem_iff settings.mode a.text.toList

/-- A record struct of the name `N`. -/
def recordStruct : List Char := "record struct N { public int x; }".toList

theorem extract_recordStruct :
    (extract .fullSignature .csharp recordStruct).name = "struct" ∧
      "struct" ∈ Language.csharp.declarationKeywords := by
  decide +kernel

end ClassDiagram
