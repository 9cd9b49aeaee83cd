import ClassDiagram.Batch
import ClassDiagram.Proofs.Model.Store

/-!
# Outcomes of a batch

Every file of a batch is judged once, by the first check that it fails, in the light of the files
accepted before it. Accepted files and warnings share out the batch between them, and the model
holds exactly the classes of the accepted files.
-/

namespace ClassDiagram.Batch

/-- The verdict on a file after the accepted files `earlier`. Each rule asks that the file passes
the checks of the rules above it and fails its own; the last one asks that it passes all. -/
inductive Judged (settings : BatchSettings) (earlier : List Accepted) (file : SourceFile) :
    Except Warning Accepted → Prop
  | unavailable {reason : String} (hcontent : file.content = .unavailable reason) :
      Judged settings earlier file (.error (.unavailable file.id reason))
  | unsupportedExtension {text : String} (hcontent : file.content = .loaded text)
      (hlanguage : file.language? = none) :
      Judged settings earlier file (.error (.unsupportedExtension file.id))
  | tooLarge {text : String} {language : Language} (hcontent : file.content = .loaded text)
      (hlanguage : file.language? = some language)
      (hsize : settings.maxSourceBytes < text.utf8ByteSize) :
      Judged settings earlier file
        (.error (.tooLarge file.id text.utf8ByteSize settings.maxSourceBytes))
  | noClassFound {text : String} {language : Language} (hcontent : file.content = .loaded text)
      (hlanguage : file.language? = some language)
      (hsize : text.utf8ByteSize ≤ settings.maxSourceBytes)
      (hname : (extract settings.mode language text.toList).name = "") :
      Judged settings earlier file (.error (.noClassFound file.id))
  | duplicateClass {text : String} {language : Language} {first : Accepted}
      (hcontent : file.content = .loaded text) (hlanguage : file.language? = some language)
      (hsize : text.utf8ByteSize ≤ settings.maxSourceBytes)
      (hname : (extract settings.mode language text.toList).name ≠ "")
      (hfirst : first ∈ earlier)
      (hsame : first.record.name = (extract settings.mode language text.toList).name) :
      Judged settings earlier file
        (.error (.duplicateClass file.id first.record.name first.id))
  | accepted {text : String} {language : Language} (hcontent : file.content = .loaded text)
      (hlanguage : file.language? = some language)
      (hsize : text.utf8ByteSize ≤ settings.maxSourceBytes)
      (hname : (extract settings.mode language text.toList).name ≠ "")
      (hfresh : ∀ a ∈ earlier,
        a.record.name ≠ (extract settings.mode language text.toList).name) :
      Judged settings earlier file
        (.ok ⟨file.id, text, language, extract settings.mode language text.toList⟩)

theorem outcome_judged (settings : BatchSettings) (earlier : List Accepted) (file : SourceFile) :
    Judged settings earlier file (outcome settings earlier file) := by
  unfold outcome
  split
  next reason hcontent => exact .unavailable hcontent
  next text hcontent =>
    split
    next hlanguage => exact .unsupportedExtension hcontent hlanguage
    next language hlanguage =>
      split
      next hsize => exact .tooLarge hcontent hlanguage hsize
      next hsize =>
        have hsize := Nat.le_of_not_lt hsize
        dsimp only
        split
        next hunusable =>
          exact .noClassFound hcontent hlanguage hsize
            (by simpa [ClassRecord.isUsable] using hunusable)
        next husable =>
          have hname : (extract settings.mode language text.toList).name ≠ "" := by
            simpa [ClassRecord.isUsable] using husable
          split
          next first hfind =>
            have hsame : first.record.name = (extract settings.mode language text.toList).name := by
              simpa using List.find?_some hfind
            rw [← hsame]
            exact .duplicateClass hcontent hlanguage hsize hname (List.mem_of_find?_eq_some hfind)
              hsame
          next hfind =>
            refine .accepted hcontent hlanguage hsize hname ?_
            intro a ha
            simpa using List.find?_eq_none.mp hfind a ha

/-- Which earlier files matter is only a question of membership. -/
theorem Judged.of_mem_iff {settings : BatchSettings} {earlier others : List Accepted}
    {file : SourceFile} {r : Except Warning Accepted} (h : Judged settings earlier file r)
    (hmem : ∀ a, a ∈ earlier ↔ a ∈ others) : Judged settings others file r := by
  cases h with
  | unavailable hcontent => exact .unavailable hcontent
  | unsupportedExtension hcontent hlanguage => exact .unsupportedExtension hcontent hlanguage
  | tooLarge hcontent hlanguage hsize => exact .tooLarge hcontent hlanguage hsize
  | noClassFound hcontent hlanguage hsize hname =>
      exact .noClassFound hcontent hlanguage hsize hname
  | duplicateClass hcontent hlanguage hsize hname hfirst hsame =>
      exact .duplicateClass hcontent hlanguage hsize hname ((hmem _).mp hfirst) hsame
  | accepted hcontent hlanguage hsize hname hfresh =>
      exact .accepted hcontent hlanguage hsize hname fun a ha => hfresh a ((hmem a).mpr ha)

/-! ## A whole batch -/

@[simp]
theorem accepted_cons (r : Except Warning Accepted) (rs : List (Except Warning Accepted)) :
    accepted (r :: rs) = r.toOption.toList ++ accepted rs := by
  cases r <;> rfl

/-- Every outcome is either an accepted file or a warning. -/
theorem length_accepted_add_length_warnings (rs : List (Except Warning Accepted)) :
    (accepted rs).length + (warnings rs).length = rs.length := by
  induction rs with
  | nil => rfl
  | cons r rs ih =>
      cases r <;> simp only [accepted, warnings, List.filterMap_cons, List.length_cons] at ih ⊢ <;>
        omega

@[simp]
theorem length_outcomes (settings : BatchSettings) (earlier : List Accepted)
    (files : List SourceFile) : (outcomes settings earlier files).length = files.length := by
  induction files generalizing earlier with
  | nil => rfl
  | cons file files ih => simp [outcomes, ih]

/-- Each file is judged in the light of the files accepted before it. -/
theorem outcomes_judged (settings : BatchSettings) (earlier : List Accepted)
    (files : List SourceFile) (i : Nat) (hi : i < files.length)
    (ho : i < (outcomes settings earlier files).length) :
    Judged settings (accepted ((outcomes settings earlier files).take i) ++ earlier) files[i]
      (outcomes settings earlier files)[i] := by
  induction files generalizing earlier i with
  | nil => exact absurd hi (Nat.not_lt_zero i)
  | cons file files ih =>
      cases i with
      | zero => exact outcome_judged settings earlier file
      | succ i =>
          have hrest := ih ((outcome settings earlier file).toOption.toList ++ earlier) i
            (Nat.lt_of_succ_lt_succ hi) (Nat.lt_of_succ_lt_succ ho)
          -- The files accepted before are the same; only the first outcome stands elsewhere.
          apply hrest.of_mem_iff
          intro a
          simp only [outcomes, List.take_succ_cons, accepted_cons, List.mem_append]
          tauto

/-- Accepted files have names, and no two of them have the same name. -/
theorem accepted_outcomes_names (settings : BatchSettings) (earlier : List Accepted)
    (files : List SourceFile) :
    ((accepted (outcomes settings earlier files)).map (·.record.name)).Nodup ∧
      ∀ a ∈ accepted (outcomes settings earlier files),
        a.record.name ≠ "" ∧ ∀ b ∈ earlier, b.record.name ≠ a.record.name := by
  -- The second part carries the induction: an accepted name is one that all later files avoid.
  induction files generalizing earlier with
  | nil => simp [outcomes, accepted]
  | cons file files ih =>
      have hjudged := outcome_judged settings earlier file
      simp only [outcomes, accepted_cons]
      cases houtcome : outcome settings earlier file with
      | error w => simpa [Except.toOption, houtcome] using ih earlier
      | ok a =>
          obtain ⟨hnodup, hrest⟩ := ih (a :: earlier)
          have hhead : a.record.name ≠ "" ∧ ∀ b ∈ earlier, b.record.name ≠ a.record.name := by
            rw [houtcome] at hjudged
            cases hjudged with
            | accepted _ _ _ hname hfresh => exact ⟨hname, hfresh⟩
          simp only [Except.toOption, Option.toList_some, List.singleton_append, List.map_cons,
            List.nodup_cons, List.mem_cons, List.mem_map, forall_eq_or_imp]
          refine ⟨⟨?_, hnodup⟩, hhead, fun b hb => ?_⟩
          · rintro ⟨b, hb, heq⟩
            exact (hrest b hb).2 a List.mem_cons_self heq.symm
          · exact ⟨(hrest b hb).1, fun c hc => (hrest b hb).2 c (List.mem_cons_of_mem _ hc)⟩

/-- The model of a batch before its relationships are added: exactly the accepted classes. -/
theorem classes_of_accepted (settings : BatchSettings) (files : List SourceFile) :
    (Model.empty.addClasses
        ((accepted (outcomes settings [] files)).map (·.record))).classes.toList =
      (accepted (outcomes settings [] files)).map (·.record) := by
  obtain ⟨hnodup, hnamed⟩ := accepted_outcomes_names settings [] files
  have hnonempty : ∀ record ∈ (accepted (outcomes settings [] files)).map (·.record),
      record.name ≠ "" := by
    intro record hrecord
    obtain ⟨a, ha, rfl⟩ := List.mem_map.mp hrecord
    exact (hnamed a ha).1
  have hclasses := Model.Consistent.empty.classes_addClasses hnonempty
    (by simpa [List.map_map, Function.comp_def] using hnodup)
  simpa [Model.empty] using hclasses

end ClassDiagram.Batch
