import ClassDiagram.Proofs.Extraction.Shape

/-!
# The characters of members

A member shows what stands in its source as program text or in a literal, and nothing of comments.
Besides it has the marks that every record uses: visibility markers, single spaces and the empty
parameter list of a bare name.
-/

namespace ClassDiagram

open Text Source

/-- The characters that a member may have without its source. -/
def rowMarks : List Char := [' ', '+', '-', '#', '(', ')']

/-- A member may show a character of its source if it is no white space and in no comment. -/
def Shown (source : List Char) (c : Char) : Prop :=
  isBlank c = false ∧ ((c, .program) ∈ layers source ∨ (c, .literal) ∈ layers source)

/-- The characters of a text are marks, or its source shows them. -/
def IsDrawn (source text : List Char) : Prop := ∀ c ∈ text, c ∈ rowMarks ∨ Shown source c

variable {source : List Char}

theorem IsDrawn.append {a b : List Char} (ha : IsDrawn source a) (hb : IsDrawn source b) :
    IsDrawn source (a ++ b) := by
  intro c hc
  rcases List.mem_append.mp hc with hc | hc
  · exact ha c hc
  · exact hb c hc

theorem isDrawn_of_marks {text : List Char} (h : ∀ c ∈ text, c ∈ rowMarks) :
    IsDrawn source text := fun c hc => .inl (h c hc)

theorem marker_mem_rowMarks (v : Visibility) : v.marker ∈ rowMarks := by
  cases v <;> decide

theorem IsDrawn.marked {s : Signature} (h : IsDrawn source s.text.toList) :
    IsDrawn source s.marked.toList := by
  rw [s.toList_marked, ← List.singleton_append]
  apply IsDrawn.append _ h
  apply isDrawn_of_marks
  intro c hc
  rw [List.mem_singleton.mp hc]
  exact marker_mem_rowMarks s.visibility

/-! ## The two copies of a source -/

theorem shown_of_mem_code {c : Char} (h : c ∈ (Masked.ofSource source).code)
    (hc : isBlank c = false) : Shown source c :=
  ⟨hc, (mem_code_iff hc).mp h⟩

theorem shown_of_mem_skeleton {c : Char} (h : c ∈ (Masked.ofSource source).skeleton)
    (hc : isBlank c = false) : Shown source c := by
  obtain ⟨a, b, hskeleton⟩ := List.append_of_mem h
  obtain ⟨before, after, hlayers, _⟩ := exists_program_of_flatMap hskeleton hc
  exact ⟨hc, .inl (hlayers ▸ List.mem_append_right _ List.mem_cons_self)⟩

theorem mem_of_mem_slice {cs : List Char} {range : Span} {c : Char} (h : c ∈ slice cs range) :
    c ∈ cs :=
  List.mem_of_mem_drop (List.mem_of_mem_take h)

theorem isDrawn_normalizeBlanks {text : List Char}
    (h : ∀ c ∈ text, isBlank c = false → Shown source c) :
    IsDrawn source (normalizeBlanks text) := by
  intro c hc
  rcases mem_normalizeBlanks hc with rfl | ⟨hblank, hmem⟩
  · exact .inl (by decide)
  · exact .inr (h c hmem hblank)

/-- A signature that is cut from the code. -/
theorem isDrawn_cut (range : Span) :
    IsDrawn source (normalizeBlanks (slice (Masked.ofSource source).code range)) :=
  isDrawn_normalizeBlanks fun _ hc => shown_of_mem_code (mem_of_mem_slice hc)

/-! ## Declarations -/

section Phrase

variable {form : Member.Form} {ends : List Char} {range : Span} {o : Nat} {p : Member.Phrase}

/-- The words of a declaration stand in the skeleton. -/
theorem mem_skeleton_of_declarator (hform : form.Breaks ends)
    (hmem : (o, p) ∈ form.within (Masked.ofSource source).skeleton range) {c : Char}
    (hc : c ∈ p.declarator) : c ∈ (Masked.ofSource source).skeleton := by
  obtain ⟨before, back, hslice, _, hread⟩ := Member.Form.mem_within hmem
  obtain ⟨afterName, rfl, _⟩ := hform.exists_afterName hread
  apply mem_of_mem_slice
  rw [hslice]
  simp [hc]

theorem isDrawn_name (hform : form.Breaks ends)
    (hmem : (o, p) ∈ form.within (Masked.ofSource source).skeleton range) :
    IsDrawn source p.name := by
  obtain ⟨_, _, _, _, hread⟩ := Member.Form.mem_within hmem
  have hname := Member.Form.isIdentifier_name hread
  intro c hc
  have hskeleton := mem_skeleton_of_declarator hform hmem (List.mem_append_right _ hc)
  exact .inr (shown_of_mem_skeleton hskeleton (isBlank_of_isWord (hname.isWord c hc)))

/-- A row of a type and a name. -/
theorem isDrawn_typed (hform : form.Breaks ends)
    (hmem : (o, p) ∈ form.within (Masked.ofSource source).skeleton range) :
    IsDrawn source
      (String.ofList (normalizeBlanks p.type) ++ " " ++ String.ofList p.name).toList := by
  simp only [String.toList_append, String.toList_ofList]
  apply IsDrawn.append _ (isDrawn_name hform hmem)
  apply IsDrawn.append _ (isDrawn_of_marks (by decide))
  apply isDrawn_normalizeBlanks
  intro c hc
  apply shown_of_mem_skeleton
  apply mem_skeleton_of_declarator hform hmem
  simp [Member.Phrase.declarator, hc]

end Phrase

/-! ## Records -/

variable {mode : ExtractionMode} {language : Language} {row : String}

theorem isDrawn_attribute (h : row ∈ (extract mode language source).attributes) :
    IsDrawn source row.toList := by
  obtain ⟨d, _, ⟨f, hf, rfl⟩ | ⟨_, q, hq, rfl⟩⟩ := exists_field_or_property_of_mem_attributes h
  · obtain ⟨⟨o, p⟩, hmem, rfl⟩ := List.mem_map.mp hf
    cases mode with
    | nameOnly => exact isDrawn_typed (Member.fieldForm_breaks language) hmem
    | fullSignature =>
        apply IsDrawn.marked
        simp only [Signature.ofField, Field.ofPhrase, String.toList_ofList]
        exact isDrawn_cut _
  · obtain ⟨⟨o, p⟩, hmem, rfl⟩ := List.mem_map.mp hq
    apply IsDrawn.marked
    exact isDrawn_typed (Member.propertyForm_breaks language) hmem

theorem isDrawn_method (h : row ∈ (extract mode language source).methods) :
    IsDrawn source row.toList := by
  obtain ⟨d, _, m, hm, rfl⟩ := exists_method_of_mem_methods h
  obtain ⟨o, p, signatureEnd, hmem, _, rfl⟩ := Member.exists_signatureEnd_of_mem_declared hm
  cases mode with
  | nameOnly =>
      dsimp only [ExtractionMode.shown]
      rw [String.toList_append, String.toList_ofList]
      exact (isDrawn_name (Member.methodForm_breaks language) hmem).append
        (isDrawn_of_marks (by decide))
  | fullSignature =>
      apply IsDrawn.marked
      dsimp only [Signature.ofMethod]
      rw [String.toList_ofList]
      exact isDrawn_cut _

/-- Every character of a member is a mark or a character that its source shows. -/
theorem isDrawn_member {record : ClassRecord} (hrecord : record = extract mode language source)
    (h : row ∈ record.attributes ++ record.methods) : IsDrawn source row.toList := by
  subst hrecord
  rcases List.mem_append.mp h with h | h
  · exact isDrawn_attribute h
  · exact isDrawn_method h

end ClassDiagram
