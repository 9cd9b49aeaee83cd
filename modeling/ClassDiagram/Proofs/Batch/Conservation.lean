import ClassDiagram.Proofs.Batch.Outcome
import ClassDiagram.Proofs.Resolution.Order

/-!
# Conservation in a batch

Nothing that enters a batch is lost on the way. A file leaves either a class or a warning, and an
edge that a source declares between accepted classes reaches the model. The relationships are
resolved by reading each accepted source a second time; both readings find the same declaration.
-/

namespace ClassDiagram.Batch

open Source

/-- Assembling with valid settings cannot fail, and its parts are these. -/
theorem assemble_eq_ok {settings : BatchSettings} (hvalid : settings.validate = .ok ())
    (files : List SourceFile) :
    assemble settings files = .ok
      ⟨modelOf (accepted (outcomes settings [] files)), warnings (outcomes settings [] files)⟩ := by
  simp only [assemble, hvalid]
  rfl

/-- Whatever is assembled has these parts. -/
theorem eq_of_assemble {settings : BatchSettings} {files : List SourceFile} {assembly : Assembly}
    (hassemble : assemble settings files = .ok assembly) :
    assembly =
      ⟨modelOf (accepted (outcomes settings [] files)), warnings (outcomes settings [] files)⟩ := by
  have hvalid : settings.validate = .ok () := by
    cases hvalidate : settings.validate with
    | ok => rfl
    | error failure => simp [assemble, hvalidate, bind, Except.bind] at hassemble
  exact Except.ok.inj (hassemble.symm.trans (assemble_eq_ok hvalid files))

@[simp]
theorem classes_modelOf (settings : BatchSettings) (files : List SourceFile) :
    (modelOf (accepted (outcomes settings [] files))).classes.toList =
      (accepted (outcomes settings [] files)).map (·.record) := by
  rw [modelOf, Model.classes_addRelationships]
  exact classes_of_accepted settings files

@[simp]
theorem names_modelOf (settings : BatchSettings) (files : List SourceFile) :
    (modelOf (accepted (outcomes settings [] files))).names =
      (accepted (outcomes settings [] files)).map (·.record.name) := by
  rw [Model.names, classes_modelOf, List.map_map]
  rfl

theorem mem_warnings_iff {w : Warning} {rs : List (Except Warning Accepted)} :
    w ∈ warnings rs ↔ .error w ∈ rs := by
  simp only [warnings, List.mem_filterMap]
  constructor
  · rintro ⟨r, hr, hw⟩
    cases r with
    | ok a => exact absurd hw (by simp)
    | error v => exact Option.some.inj hw ▸ hr
  · exact fun hr => ⟨_, hr, rfl⟩

theorem mem_accepted_iff {a : Accepted} {rs : List (Except Warning Accepted)} :
    a ∈ accepted rs ↔ .ok a ∈ rs := by
  simp only [accepted, List.mem_filterMap]
  constructor
  · rintro ⟨r, hr, ha⟩
    cases r with
    | ok b => exact Option.some.inj ha ▸ hr
    | error w => exact absurd ha (by simp)
  · exact fun hr => ⟨_, hr, rfl⟩

/-- The verdict behind a member of the outcomes, with the file it is about. -/
theorem judged_of_mem_outcomes {settings : BatchSettings} {files : List SourceFile}
    {r : Except Warning Accepted} (hr : r ∈ outcomes settings [] files) :
    ∃ earlier file, (∀ a ∈ earlier, a ∈ accepted (outcomes settings [] files)) ∧
      file ∈ files ∧ Judged settings earlier file r := by
  obtain ⟨i, hi, rfl⟩ := List.mem_iff_getElem.mp hr
  have hfile : i < files.length := by simpa using hi
  refine ⟨_, files[i], ?_, List.getElem_mem hfile, outcomes_judged settings [] files i hfile hi⟩
  intro a ha
  rw [List.append_nil, mem_accepted_iff] at ha
  exact mem_accepted_iff.mpr (List.mem_of_mem_take ha)

/-- Each file of a batch has exactly one outcome, that of the first check it fails: its class is
in the model, as the extractor reads it and in the order of the files, or there is a warning, again
in the order of the files. A warning about a duplicate names the one file whose class is kept. -/
theorem assemble_conserves {settings : BatchSettings} (hvalid : settings.validate = .ok ())
    (files : List SourceFile) :
    ∃ assembly, assemble settings files = .ok assembly ∧
      (∀ i file, files[i]? = some file → ∃ r, (outcomes settings [] files)[i]? = some r ∧
        Judged settings (accepted ((outcomes settings [] files).take i)) file r) ∧
      assembly.model.classes.toList =
        (accepted (outcomes settings [] files)).map (·.record) ∧
      (∀ a ∈ accepted (outcomes settings [] files),
        a.record = extract settings.mode a.language a.text.toList) ∧
      assembly.warnings = warnings (outcomes settings [] files) ∧
      assembly.model.classes.size + assembly.warnings.length = files.length ∧
      ∀ id name first, .duplicateClass id name first ∈ assembly.warnings →
        assembly.model.names.count name = 1 ∧
        ∃ a ∈ accepted (outcomes settings [] files), a.record.name = name ∧ a.id = first := by
  refine ⟨_, assemble_eq_ok hvalid files, ?_, classes_modelOf settings files, ?_, rfl, ?_, ?_⟩
  · intro i file hfile
    obtain ⟨hi, rfl⟩ := List.getElem?_eq_some_iff.mp hfile
    have houtcome : i < (outcomes settings [] files).length := by simpa using hi
    have hjudged := outcomes_judged settings [] files i hi houtcome
    rw [List.append_nil] at hjudged
    exact ⟨_, List.getElem?_eq_getElem houtcome, hjudged⟩
  · intro a ha
    obtain ⟨_, _, _, _, hjudged⟩ := judged_of_mem_outcomes (mem_accepted_iff.mp ha)
    cases hjudged with
    | accepted => rfl
  · have hsize := congrArg List.length (classes_modelOf settings files)
    rw [Array.length_toList, List.length_map] at hsize
    rw [hsize, length_accepted_add_length_warnings, length_outcomes]
  · intro id name first hwarning
    obtain ⟨earlier, file, hearlier, _, hjudged⟩ :=
      judged_of_mem_outcomes (mem_warnings_iff.mp hwarning)
    cases hjudged with
    | duplicateClass _ _ _ _ hfirst _ =>
        have hmem := hearlier _ hfirst
        refine ⟨?_, _, hmem, rfl, rfl⟩
        rw [names_modelOf]
        exact List.count_eq_one_of_mem (accepted_outcomes_names settings [] files).1
          (List.mem_map_of_mem hmem)

/-- A batch with a class, a missing file and a second class of the same name: one class, two
warnings. -/
theorem assemble_conserves_three_files :
    BatchSettings.default.validate = .ok () ∧
      ∃ assembly, assemble .default
          [⟨"A.java", .loaded "class A { }", none⟩, ⟨"B.java", .unavailable "gone", none⟩,
            ⟨"C.cs", .loaded "struct A { }", none⟩] = .ok assembly ∧
        assembly.warnings = [.unavailable "B.java" "gone", .duplicateClass "C.cs" "A" "A.java"] ∧
        assembly.model.classes.size + assembly.warnings.length = 3 := by
  obtain ⟨assembly, hok, _, _, _, hwarnings, hcount, _⟩ := assemble_conserves
    (show BatchSettings.default.validate = .ok () by decide)
    [⟨"A.java", .loaded "class A { }", none⟩, ⟨"B.java", .unavailable "gone", none⟩,
      ⟨"C.cs", .loaded "struct A { }", none⟩]
  refine ⟨by decide, assembly, hok, ?_, hcount⟩
  rw [hwarnings]
  decide +kernel

/-! ## Relationships -/

/-- A named record comes from the first declaration of its source. -/
theorem exists_declaration_of_extract {mode : ExtractionMode} {language : Language}
    {source : List Char} (hname : (extract mode language source).name ≠ "") :
    ∃ d, Declaration.find? language (Masked.ofSource source).skeleton = some d ∧
      d.name = (extract mode language source).name := by
  unfold extract Extraction.ofMasked at hname ⊢
  cases hfind : Declaration.find? language (Masked.ofSource source).skeleton with
  | none => simp [hfind, ClassRecord.unnamed] at hname
  | some d => cases mode <;> exact ⟨d, rfl, rfl⟩

/-- The edges that are added to the model of a batch, in the order in which they are added. -/
def edges (settings : BatchSettings) (files : List SourceFile) : List Relationship :=
  (accepted (outcomes settings [] files)).flatMap fun a =>
    resolve a.language a.text.toList a.record.name
      ((accepted (outcomes settings [] files)).map (·.record.name)).contains

/-- The classes of a batch, before its relationships are added. -/
def classModel (settings : BatchSettings) (files : List SourceFile) : Model :=
  Model.empty.addClasses ((accepted (outcomes settings [] files)).map (·.record))

theorem consistent_classModel (settings : BatchSettings) (files : List SourceFile) :
    (classModel settings files).Consistent := Model.Consistent.empty.addClasses _

theorem names_classModel (settings : BatchSettings) (files : List SourceFile) :
    (classModel settings files).names =
      (accepted (outcomes settings [] files)).map (·.record.name) := by
  rw [Model.names, classModel, classes_of_accepted, List.map_map]
  rfl

theorem modelOf_eq_addRelationships (settings : BatchSettings) (files : List SourceFile) :
    modelOf (accepted (outcomes settings [] files)) =
      (classModel settings files).addRelationships (edges settings files) := by
  have hknown : (classModel settings files).contains =
      ((accepted (outcomes settings [] files)).map (·.record.name)).contains := by
    funext name
    rw [Bool.eq_iff_iff, (consistent_classModel settings files).contains_iff, names_classModel,
      List.contains_iff_mem]
  -- The second pass asks the index of the model for known names, `edges` the list of its classes.
  change (classModel settings files).addRelationships _ = _
  unfold relationships edges
  rw [← hknown]
  rfl

/-- Both ends of every edge of a batch are accepted classes. -/
theorem edges_join {settings : BatchSettings} {files : List SourceFile} {r : Relationship}
    (hr : r ∈ edges settings files) :
    r.source ∈ (classModel settings files).names ∧
      r.target ∈ (classModel settings files).names := by
  obtain ⟨a, ha, hr⟩ := List.mem_flatMap.mp hr
  obtain ⟨hsource, htarget⟩ := mem_resolve hr
  rw [names_classModel, hsource]
  exact ⟨List.mem_map_of_mem ha, List.contains_iff_mem.mp htarget⟩

/-- The relationships of a batch are what the accepted sources declare between accepted classes,
one file after the other. No edge is refused on the way, since the second reading of each source
finds the declaration of its class, and every target is among the classes. -/
theorem assemble_relationships {settings : BatchSettings} (hvalid : settings.validate = .ok ())
    (files : List SourceFile) :
    ∃ assembly, assemble settings files = .ok assembly ∧
      assembly.model.relationships.toList =
        (accepted (outcomes settings [] files)).flatMap (fun a =>
          resolve a.language a.text.toList a.record.name
            (assembly.model.classes.toList.map (·.name)).contains) ∧
      (∀ earlier r later, assembly.model.relationships.toList = earlier ++ r :: later →
        (((classModel settings files).addRelationships earlier).addRelationship r).2 = true) ∧
      (∀ a ∈ accepted (outcomes settings [] files), ∃ d,
        Declaration.find? a.language (Masked.ofSource a.text.toList).skeleton = some d ∧
          d.name = a.record.name) ∧
      ∀ r ∈ assembly.model.relationships.toList,
        r.source ∈ assembly.model.classes.toList.map (·.name) ∧
          r.target ∈ assembly.model.classes.toList.map (·.name) := by
  have hadded : (modelOf (accepted (outcomes settings [] files))).relationships.toList =
      edges settings files := by
    rw [modelOf_eq_addRelationships,
      (consistent_classModel settings files).relationships_addRelationships
        fun r hr => edges_join hr]
    simp [classModel, Model.empty]
  have hnames : (modelOf (accepted (outcomes settings [] files))).classes.toList.map (·.name) =
      (classModel settings files).names := by
    rw [names_classModel]
    exact names_modelOf settings files
  refine ⟨_, assemble_eq_ok hvalid files, ?_, ?_, ?_, ?_⟩
  · dsimp only
    rw [hadded, hnames, names_classModel]
    rfl
  · intro earlier r later heq
    have hr : r ∈ edges settings files := by
      rw [← hadded, heq]
      exact List.mem_append_right _ List.mem_cons_self
    have hconsistent := (consistent_classModel settings files).addRelationships earlier
    rw [hconsistent.addRelationship_accepts_iff, Model.names_addRelationships]
    exact edges_join hr
  · intro a ha
    obtain ⟨_, _, _, _, hjudged⟩ := judged_of_mem_outcomes (mem_accepted_iff.mp ha)
    cases hjudged with
    -- A record with a name was read off a declaration, and the resolver looks for the same one.
    | accepted _ _ _ hname _ => exact exists_declaration_of_extract hname
  · intro r hr
    dsimp only at hr ⊢
    rw [hadded] at hr
    rw [hnames]
    exact edges_join hr

/-- Two files, of which one extends the class of the other. -/
theorem assemble_relationships_two_files :
    BatchSettings.default.validate = .ok () ∧
      ∃ assembly, assemble .default
          [⟨"A.java", .loaded "class A extends B { }", none⟩,
            ⟨"B.java", .loaded "class B { }", none⟩] = .ok assembly ∧
        assembly.model.relationships.toList = [⟨"A", "B", .inheritance⟩] := by
  have hvalid : BatchSettings.default.validate = .ok () := by decide
  obtain ⟨assembly, hok, hedges, _⟩ := assemble_relationships hvalid
    [⟨"A.java", .loaded "class A extends B { }", none⟩, ⟨"B.java", .loaded "class B { }", none⟩]
  refine ⟨hvalid, assembly, hok, ?_⟩
  have hnames : assembly.model.classes.toList.map (·.name) = ["A", "B"] := by
    obtain rfl := Except.ok.inj (hok.symm.trans (assemble_eq_ok hvalid _))
    change Model.names _ = _
    rw [names_modelOf]
    decide +kernel
  rw [hedges, hnames]
  decide +kernel

end ClassDiagram.Batch
