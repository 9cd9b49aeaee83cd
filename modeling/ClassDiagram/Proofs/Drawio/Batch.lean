import ClassDiagram.Proofs.Batch.Conservation
import ClassDiagram.Proofs.Declaration.Name
import ClassDiagram.Proofs.Drawio.Legal
import ClassDiagram.Proofs.Extraction.Characters

/-!
# Legal characters in the documents of batches

Class names are words and so they are legal. A signature is legal if its source is, outside of its
comments and up to white space; but what the source has of illegal characters, in a literal or in
program text, goes through the signature into the document.
-/

namespace ClassDiagram

open Text Source Xml

/-! ## Drawn members -/

theorem illegal_trimStart {cs : List Char} (h : ∀ c ∈ cs, isBlank c = true → isLegal c = true) :
    illegal (trimStart cs) = illegal cs := by
  induction cs with
  | nil => rfl
  | cons c cs ih =>
      rw [trimStart, List.dropWhile_cons]
      split
      next hblank =>
        rw [illegal_cons_of_isLegal (h c List.mem_cons_self hblank)]
        exact ih fun d hd => h d (List.mem_cons_of_mem c hd)
      next => rfl

theorem illegal_reverse (cs : List Char) : illegal cs.reverse = (illegal cs).reverse :=
  List.filter_reverse

theorem mem_of_mem_trimStart {cs : List Char} {c : Char} (h : c ∈ trimStart cs) : c ∈ cs :=
  (List.dropWhile_suffix isBlank).subset h

/-- Trimming takes no illegal character away unless it is white space. -/
theorem illegal_trim {cs : List Char} (h : ∀ c ∈ cs, isBlank c = true → isLegal c = true) :
    illegal (trim cs) = illegal cs := by
  have hback : ∀ c ∈ (trimStart cs).reverse, isBlank c = true → isLegal c = true := by
    intro c hc
    exact h c (mem_of_mem_trimStart (List.mem_reverse.mp hc))
  rw [trim, trimEnd, illegal_reverse]
  exact (congrArg List.reverse (illegal_trimStart hback)).trans
    (by rw [illegal_reverse, List.reverse_reverse, illegal_trimStart h])

theorem illegal_glyph_append (v : Visibility) (cs : List Char) :
    illegal (v.glyph ++ cs) = illegal cs := by
  rw [illegal_append]
  cases v <;> rfl

/-- A drawn row has the illegal characters of its member. -/
theorem illegal_normalize {cs : List Char} (h : ∀ c ∈ cs, isBlank c = true → isLegal c = true) :
    illegal (Visibility.normalize cs) = illegal cs := by
  rw [Visibility.normalize, illegal_glyph_append]
  cases cs with
  | nil => rfl
  | cons c rest =>
      rw [Visibility.split]
      cases hmarker : Visibility.ofMarker? c with
      | none => exact illegal_trim h
      | some v =>
          have hlegal : isLegal c = true := by
            unfold Visibility.ofMarker? at hmarker
            split at hmarker <;> first | decide | exact absurd hmarker (by simp)
          rw [illegal_cons_of_isLegal hlegal]
          exact illegal_trim fun d hd => h d (List.mem_cons_of_mem c hd)

theorem isLegal_rowMarks {c : Char} (h : c ∈ rowMarks) : isLegal c = true := by
  have hall : ∀ c ∈ rowMarks, isLegal c = true := by decide
  exact hall c h

theorem IsDrawn.isLegal_of_isBlank {source cs : List Char} (h : IsDrawn source cs) {c : Char}
    (hc : c ∈ cs) (hblank : isBlank c = true) : isLegal c = true := by
  rcases h c hc with hmark | hshown
  · exact isLegal_rowMarks hmark
  · rw [hshown.1] at hblank
    exact absurd hblank Bool.false_ne_true

/-! ## Records -/

theorem illegal_name_extract (mode : ExtractionMode) (language : Language) (source : List Char) :
    illegal (extract mode language source).name.toList = [] := by
  rw [illegal_eq_nil_iff, extract_name]
  cases hfind : Declaration.find? language (Masked.ofSource source).skeleton with
  | none =>
      intro c hc
      exact absurd hc (by simp)
  | some d =>
      have hname := (Declaration.exists_find?_iff.mp ⟨d, hfind, rfl, rfl⟩).2.1
      intro c hc
      exact isLegal_of_isWord (hname.isWord c hc)

/-- The rows of a record that is extracted have the illegal characters of its members. -/
theorem illegal_rows_extract {mode : ExtractionMode} {language : Language} {source : List Char}
    {record : ClassRecord} (hrecord : record = extract mode language source) :
    ((record.attributes ++ record.methods).flatMap fun member =>
        illegal (Visibility.normalize member.toList)) =
      (record.attributes ++ record.methods).flatMap fun member => illegal member.toList := by
  apply List.flatMap_congr
  intro member hmember
  exact illegal_normalize fun c hc => (isDrawn_member hrecord hmember).isLegal_of_isBlank hc

/-! ## Batches -/

theorem illegal_rows_of_batch {limits : BatchSettings} {files : List SourceFile}
    {records : List ClassRecord}
    (hrecords : records = (Batch.accepted (Batch.outcomes limits [] files)).map (·.record)) :
    (records.flatMap fun record =>
        illegal record.name.toList ++ (record.attributes ++ record.methods).flatMap fun member =>
          illegal (Visibility.normalize member.toList)) =
      records.flatMap fun record =>
        (record.attributes ++ record.methods).flatMap fun member => illegal member.toList := by
  apply List.flatMap_congr
  intro record hrecord
  rw [hrecords] at hrecord
  obtain ⟨a, ha, rfl⟩ := List.mem_map.mp hrecord
  have hrecord := Batch.record_of_mem_accepted ha
  rw [illegal_rows_extract hrecord, hrecord, illegal_name_extract, List.nil_append]

/-- The document of a model has exactly the illegal characters of its class names and of its rows,
in their order. The document of a batch is legal exactly if all members are, and an illegal
character of it stands in an accepted source, as program text or in a literal. -/
theorem generate_isLegal_iff {settings : LayoutSettings} {limits : BatchSettings}
    (hsettings : settings.validate = .ok ()) (hlimits : limits.validate = .ok ())
    (style : Json.Style) :
    (∀ model, ∃ text, generate settings .drawio style model = .ok text ∧
      illegal text.toList = model.classes.toList.flatMap fun record =>
        illegal record.name.toList ++ (record.attributes ++ record.methods).flatMap fun member =>
          illegal (Visibility.normalize member.toList)) ∧
    ∀ files, ∃ assembly text, assemble limits files = .ok assembly ∧
      generate settings .drawio style assembly.model = .ok text ∧
      ((∀ c ∈ text.toList, isLegal c = true) ↔
        ∀ record ∈ assembly.model.classes.toList, ∀ member ∈ record.attributes ++ record.methods,
          ∀ c ∈ member.toList, isLegal c = true) ∧
      ∀ c ∈ text.toList, isLegal c = false →
        ∃ a ∈ Batch.accepted (Batch.outcomes limits [] files), Shown a.text.toList c := by
  refine ⟨fun model => Drawio.exists_generate_drawio hsettings style model, fun files => ?_⟩
  have hassemble := Batch.assemble_eq_ok hlimits files
  have hrecords := Batch.classes_modelOf limits files
  generalize Batch.modelOf (Batch.accepted (Batch.outcomes limits [] files)) = model at *
  obtain ⟨text, hgenerate, htext⟩ := Drawio.exists_generate_drawio hsettings style model
  rw [illegal_rows_of_batch hrecords] at htext
  refine ⟨_, text, hassemble, hgenerate, ?_, ?_⟩
  · rw [← illegal_eq_nil_iff, htext]
    simp only [List.flatMap_eq_nil_iff, illegal_eq_nil_iff]
  · intro c hc hillegal
    have hmem : c ∈ illegal text.toList := mem_illegal.mpr ⟨hc, hillegal⟩
    rw [htext] at hmem
    obtain ⟨record, hrecord, hrow⟩ := List.mem_flatMap.mp hmem
    obtain ⟨member, hmember, hcharacter⟩ := List.mem_flatMap.mp hrow
    rw [hrecords] at hrecord
    obtain ⟨a, ha, rfl⟩ := List.mem_map.mp hrecord
    have hdrawn := isDrawn_member (Batch.record_of_mem_accepted ha) hmember
    refine ⟨a, ha, (hdrawn c (mem_illegal.mp hcharacter).1).resolve_left ?_⟩
    intro hmark
    rw [isLegal_rowMarks hmark] at hillegal
    exact absurd hillegal (by decide)

/-- A control character in a comment of a signature, beside a literal that needs references. -/
theorem generate_isLegal_iff_comment :
    let files : List SourceFile := [⟨"A.java",
      .loaded "class A \x7b public void f(/* \x01 */ @Q(\"<é>\") int a) \x7b \x7d \x7d", none⟩]
    LayoutSettings.default.validate = .ok () ∧ BatchSettings.default.validate = .ok () ∧
      ∃ assembly text, assemble .default files = .ok assembly ∧
        generate .default .drawio .compact assembly.model = .ok text ∧
        ∀ c ∈ text.toList, isLegal c = true := by
  intro files
  have hrecords : (Batch.accepted (Batch.outcomes .default [] files)).map (·.record) =
      [⟨"A", [], ["+void f( @Q(\"<é>\") int a)"]⟩] := by
    decide +kernel
  have hsettings : LayoutSettings.default.validate = .ok () := rfl
  have hlimits : BatchSettings.default.validate = .ok () := rfl
  obtain ⟨assembly, text, hassemble, hgenerate, hlegal, _⟩ :=
    (generate_isLegal_iff hsettings hlimits .compact).2 files
  refine ⟨hsettings, hlimits, assembly, text, hassemble, hgenerate, hlegal.mpr ?_⟩
  obtain rfl := Except.ok.inj (hassemble.symm.trans (Batch.assemble_eq_ok hlimits files))
  rw [Batch.classes_modelOf, hrecords]
  decide +kernel

/-- A control character in a literal of a signature stands in the document. -/
theorem generate_isLegal_iff_literal :
    let files : List SourceFile := [⟨"A.java",
      .loaded "class A \x7b public void f(@Q(\"\x01\") int a) \x7b \x7d \x7d", none⟩]
    ∃ assembly text, assemble .default files = .ok assembly ∧
      generate .default .drawio .compact assembly.model = .ok text ∧
      '\x01' ∈ text.toList ∧ isLegal '\x01' = false := by
  intro files
  have hrecords : (Batch.accepted (Batch.outcomes .default [] files)).map (·.record) =
      [⟨"A", [], ["+void f(@Q(\"\x01\") int a)"]⟩] := by
    decide +kernel
  have hsettings : LayoutSettings.default.validate = .ok () := rfl
  have hlimits : BatchSettings.default.validate = .ok () := rfl
  obtain ⟨text, hgenerate, htext⟩ := Drawio.exists_generate_drawio hsettings .compact
    (Batch.modelOf (Batch.accepted (Batch.outcomes .default [] files)))
  refine ⟨_, text, Batch.assemble_eq_ok hlimits files, hgenerate, ?_⟩
  rw [Batch.classes_modelOf, hrecords] at htext
  apply mem_illegal.mp
  rw [htext]
  decide +kernel

end ClassDiagram
