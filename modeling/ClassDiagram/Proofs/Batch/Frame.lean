import ClassDiagram.Proofs.Batch.Permutation
import ClassDiagram.Proofs.Declaration.Name

/-!
# What a batch does not depend on

A rejected file leaves nothing behind: later files are judged only by the accepted ones, and the
relationships are resolved among these. The mode decides what a record keeps of the members of a
class; which files are accepted and what they are related to is decided by the names of the classes
and by the sources.
-/

namespace ClassDiagram.Batch

variable (settings : BatchSettings) (files : List SourceFile)

/-! ## Rejected files -/

/-- The files that draw no warning after the accepted files `earlier`. -/
def kept (earlier : List Accepted) : List SourceFile :=
  ((files.zip (outcomes settings earlier files)).filter (·.2.isOk)).map (·.1)

theorem kept_cons (earlier : List Accepted) (file : SourceFile) :
    kept settings (file :: files) earlier =
      if (outcome settings earlier file).isOk then
        file :: kept settings files ((outcome settings earlier file).toOption.toList ++ earlier)
      else kept settings files earlier := by
  rw [kept, outcomes, List.zip_cons_cons, List.filter_cons]
  cases outcome settings earlier file with
  | error w => rfl
  | ok a => rfl

/-- The files that are kept are all accepted, as they were in the whole batch. -/
theorem outcomes_kept (earlier : List Accepted) :
    outcomes settings earlier (kept settings files earlier) =
      (accepted (outcomes settings earlier files)).map .ok := by
  induction files generalizing earlier with
  | nil => rfl
  | cons file files ih =>
      rw [kept_cons, outcomes]
      cases houtcome : outcome settings earlier file with
      -- The run goes on with the same accepted files, whether or not the file was there.
      | error w => exact ih earlier
      | ok a =>
          rw [if_pos (show (Except.ok a : Except Warning Accepted).isOk = true from rfl), outcomes,
            houtcome, ih]
          rfl

theorem accepted_map_ok (files : List Accepted) : accepted (files.map .ok) = files := by
  induction files with
  | nil => rfl
  | cons a files ih => rw [List.map_cons, accepted_ok_cons, ih]

theorem warnings_map_ok (files : List Accepted) : warnings (files.map .ok) = [] := by
  rw [warnings, List.filterMap_map]
  exact List.filterMap_eq_nil_iff.mpr fun _ _ => rfl

/-! ## Modes -/

/-- An accepted file without the members of its class. -/
def withoutMembers (file : Accepted) : Accepted :=
  { file with record := ⟨file.record.name, [], []⟩ }

/-- On its own, a file has the same outcome in each mode up to the members of its class. -/
theorem outcome_nil_withoutMembers (mode : ExtractionMode) (file : SourceFile) :
    (outcome { settings with mode := mode } [] file).map withoutMembers =
      (outcome settings [] file).map withoutMembers := by
  unfold outcome
  split
  next => rfl
  next text _ =>
    split
    next => rfl
    next language _ =>
      have hname : (extract mode language text.toList).name =
          (extract settings.mode language text.toList).name := by
        rw [extract_name, extract_name]
      dsimp only
      rw [ClassRecord.isUsable, ClassRecord.isUsable, hname]
      split
      next => rfl
      next =>
        split
        next => rfl
        next =>
          simp only [List.find?_nil, Except.map, withoutMembers, hname]

theorem enroll_withoutMembers (earlier : List Accepted) (file : Accepted) :
    (enroll earlier file).map withoutMembers =
      enroll (earlier.map withoutMembers) (withoutMembers file) := by
  have hsame : earlier.find? ((·.record.name = (withoutMembers file).record.name) ∘ withoutMembers) =
      earlier.find? (·.record.name = file.record.name) := rfl
  rw [enroll, enroll, List.find?_map, hsame]
  cases earlier.find? (·.record.name = file.record.name) with
  | none => rfl
  | some first => rfl

theorem bind_enroll_withoutMembers (earlier : List Accepted) (result : Except Warning Accepted) :
    (result.bind (enroll earlier)).map withoutMembers =
      (result.map withoutMembers).bind (enroll (earlier.map withoutMembers)) := by
  cases result with
  | error w => rfl
  | ok file => exact enroll_withoutMembers earlier file

/-- After files that agree up to the members of their classes, so does the outcome. -/
theorem outcome_withoutMembers (mode : ExtractionMode) {earlier others : List Accepted}
    (hearlier : earlier.map withoutMembers = others.map withoutMembers) (file : SourceFile) :
    (outcome { settings with mode := mode } earlier file).map withoutMembers =
      (outcome settings others file).map withoutMembers := by
  rw [outcome_eq_bind, outcome_eq_bind settings, bind_enroll_withoutMembers,
    bind_enroll_withoutMembers, outcome_nil_withoutMembers, hearlier]

theorem map_toOption_toList {α β : Type} {w : Type} (f : α → β) (r : Except w α) :
    r.toOption.toList.map f = (r.map f).toOption.toList := by
  cases r with
  | error _ => rfl
  | ok _ => rfl

theorem outcomes_withoutMembers (mode : ExtractionMode) {earlier others : List Accepted}
    (hearlier : earlier.map withoutMembers = others.map withoutMembers) :
    (outcomes { settings with mode := mode } earlier files).map (·.map withoutMembers) =
      (outcomes settings others files).map (·.map withoutMembers) := by
  induction files generalizing earlier others with
  | nil => rfl
  | cons file files ih =>
      have hhead := outcome_withoutMembers settings mode hearlier file
      rw [outcomes, outcomes, List.map_cons, List.map_cons, hhead]
      refine congrArg _ (ih ?_)
      rw [List.map_append, List.map_append, map_toOption_toList, map_toOption_toList, hhead,
        hearlier]

theorem accepted_map (f : Accepted → Accepted) (results : List (Except Warning Accepted)) :
    accepted (results.map (·.map f)) = (accepted results).map f := by
  rw [accepted, accepted, List.filterMap_map, List.map_filterMap]
  refine List.filterMap_congr fun r _ => ?_
  cases r with
  | error w => rfl
  | ok a => rfl

theorem warnings_map (f : Accepted → Accepted) (results : List (Except Warning Accepted)) :
    warnings (results.map (·.map f)) = warnings results := by
  rw [warnings, warnings, List.filterMap_map]
  refine List.filterMap_congr fun r _ => ?_
  cases r with
  | error w => rfl
  | ok a => rfl

theorem edgesOf_withoutMembers (files : List Accepted) :
    edgesOf (files.map withoutMembers) = edgesOf files := by
  rw [edgesOf, List.flatMap_map, List.map_map]
  rfl

/-- In another mode the same files are accepted, up to the members of their classes. -/
theorem accepted_withoutMembers (mode : ExtractionMode) :
    (accepted (outcomes { settings with mode := mode } [] files)).map withoutMembers =
      (accepted (outcomes settings [] files)).map withoutMembers := by
  rw [← accepted_map, ← accepted_map, outcomes_withoutMembers settings files mode rfl]

theorem warnings_mode (mode : ExtractionMode) :
    warnings (outcomes { settings with mode := mode } [] files) =
      warnings (outcomes settings [] files) := by
  rw [← warnings_map withoutMembers, outcomes_withoutMembers settings files mode rfl, warnings_map]

theorem edges_mode (mode : ExtractionMode) :
    edges { settings with mode := mode } files = edges settings files := by
  rw [edges_eq_edgesOf, edges_eq_edgesOf, ← edgesOf_withoutMembers, accepted_withoutMembers,
    edgesOf_withoutMembers]

theorem names_mode (mode : ExtractionMode) :
    (accepted (outcomes { settings with mode := mode } [] files)).map (·.record.name) =
      (accepted (outcomes settings [] files)).map (·.record.name) := by
  have hnames := congrArg (List.map (·.record.name))
    (accepted_withoutMembers settings files mode)
  rwa [List.map_map, List.map_map] at hnames

variable {settings}

/-- The files that draw no warning give the same model when they are assembled without the others,
and still draw none. In any other mode the batch gives the same warnings, the same names in the
same order, and the same relationships. -/
theorem assemble_frame (hvalid : settings.validate = .ok ()) (mode : ExtractionMode) :
    ∃ assembly other, assemble settings files = .ok assembly ∧
      assemble settings (kept settings files []) = .ok ⟨assembly.model, []⟩ ∧
      assemble { settings with mode := mode } files = .ok other ∧
      other.warnings = assembly.warnings ∧
      other.model.classes.toList.map (·.name) = assembly.model.classes.toList.map (·.name) ∧
      other.model.relationships.toList = assembly.model.relationships.toList := by
  have hother : ({ settings with mode := mode } : BatchSettings).validate = .ok () := hvalid
  refine ⟨_, _, assemble_eq_ok hvalid files, ?_, assemble_eq_ok hother files, ?_, ?_, ?_⟩
  · rw [assemble_eq_ok hvalid, outcomes_kept, accepted_map_ok, warnings_map_ok]
  · exact warnings_mode settings files mode
  · dsimp only
    rw [classes_modelOf, classes_modelOf, List.map_map, List.map_map]
    exact names_mode settings files mode
  · dsimp only
    rw [relationships_modelOf, relationships_modelOf, edges_mode]

/-- A batch with a missing file and a name that is taken, read in both modes. -/
theorem assemble_frame_rejected :
    let files : List SourceFile := [⟨"A.java", .loaded "class A extends B { public int x; }", none⟩,
      ⟨"gone.java", .unavailable "gone", none⟩, ⟨"B.java", .loaded "class B { }", none⟩,
      ⟨"A.cs", .loaded "class A { }", none⟩]
    BatchSettings.default.validate = .ok () ∧
      kept .default files [] = [⟨"A.java", .loaded "class A extends B { public int x; }", none⟩,
        ⟨"B.java", .loaded "class B { }", none⟩] ∧
      ∃ assembly other, assemble .default files = .ok assembly ∧
        assemble .default (kept .default files []) = .ok ⟨assembly.model, []⟩ ∧
        assemble { BatchSettings.default with mode := .nameOnly } files = .ok other ∧
        other.warnings = [.unavailable "gone.java" "gone", .duplicateClass "A.cs" "A" "A.java"] ∧
        other.model.relationships.toList = [⟨"A", "B", .inheritance⟩] := by
  intro files
  have hvalid : BatchSettings.default.validate = .ok () := by decide
  obtain ⟨assembly, other, hassembly, hkept, hother, hwarnings, _, hrelationships⟩ :=
    assemble_frame files hvalid .nameOnly
  refine ⟨hvalid, by decide +kernel, assembly, other, hassembly, hkept, hother, ?_, ?_⟩
  · obtain rfl := Except.ok.inj (hassembly.symm.trans (assemble_eq_ok hvalid files))
    rw [hwarnings]
    decide +kernel
  · obtain rfl := Except.ok.inj (hassembly.symm.trans (assemble_eq_ok hvalid files))
    rw [hrelationships, relationships_modelOf]
    decide +kernel

end ClassDiagram.Batch
