import ClassDiagram.Proofs.Batch.Growth

/-!
# The order of a batch

The files before a file matter to it only if one of them has taken the name of its class. In a
batch in which no name is taken twice, every file has the outcome that it has in a batch of its
own, so another order of the files gives the same classes, relationships and warnings in another
order.
-/

namespace ClassDiagram.Batch

/-- No warning is about a name that is taken. -/
def Clashless (found : List Warning) : Prop :=
  ∀ id name first, .duplicateClass id name first ∉ found

/-- What becomes of a file that would be accepted in a batch of its own, after the accepted files
`earlier`. -/
def enroll (earlier : List Accepted) (file : Accepted) : Except Warning Accepted :=
  match earlier.find? (·.record.name = file.record.name) with
  | some first => .error (.duplicateClass file.id file.record.name first.id)
  | none => .ok file

/-- The checks that look at the file alone come first. -/
theorem outcome_eq_bind (settings : BatchSettings) (earlier : List Accepted) (file : SourceFile) :
    outcome settings earlier file = (outcome settings [] file).bind (enroll earlier) := by
  unfold outcome
  split
  next => rfl
  next text _ =>
    split
    next => rfl
    next language _ =>
      dsimp only
      split
      next => rfl
      next =>
        split
        next => rfl
        next => rfl

variable {settings : BatchSettings} {earlier : List Accepted} {files others : List SourceFile}

theorem enroll_eq_ok_iff {file : Accepted} :
    enroll earlier file = .ok file ↔ ∀ a ∈ earlier, a.record.name ≠ file.record.name := by
  unfold enroll
  split
  next first hfind =>
    have hsame : first.record.name = file.record.name := by simpa using List.find?_some hfind
    constructor
    · intro herror
      cases herror
    · intro hfresh
      exact absurd hsame (hfresh first (List.mem_of_find?_eq_some hfind))
  next hfind =>
    refine ⟨fun _ a ha => ?_, fun _ => rfl⟩
    simpa using List.find?_eq_none.mp hfind a ha

theorem enroll_ok_or_error (earlier : List Accepted) (file : Accepted) :
    enroll earlier file = .ok file ∨
      ∃ first, enroll earlier file = .error (.duplicateClass file.id file.record.name first) := by
  unfold enroll
  split
  next first _ => exact .inr ⟨first.id, rfl⟩
  next => exact .inl rfl

/-- A file in a batch of its own meets no taken name. -/
theorem outcome_nil_ne_duplicateClass (file : SourceFile) (id name first : String) :
    outcome settings [] file ≠ .error (.duplicateClass id name first) := by
  intro hclash
  have hjudged := outcome_judged settings [] file
  rw [hclash] at hjudged
  cases hjudged with
  | duplicateClass _ _ _ _ hfirst _ => exact absurd hfirst List.not_mem_nil

/-! ## Batches without clashes -/

theorem accepted_ok_cons (a : Accepted) (results : List (Except Warning Accepted)) :
    accepted (.ok a :: results) = a :: accepted results := rfl

theorem accepted_error_cons (w : Warning) (results : List (Except Warning Accepted)) :
    accepted (.error w :: results) = accepted results := rfl

theorem clashless_map_outcome_nil (files : List SourceFile) :
    Clashless (warnings (files.map (outcome settings []))) := by
  intro id name first hclash
  obtain ⟨file, _, hfile⟩ := List.mem_map.mp (mem_warnings_iff.mp hclash)
  exact outcome_nil_ne_duplicateClass file id name first hfile

/-- Without a clash every file has the outcome of a batch of its own. -/
theorem outcomes_eq_map_of_clashless
    (hclashless : Clashless (warnings (outcomes settings earlier files))) :
    outcomes settings earlier files = files.map (outcome settings []) := by
  induction files generalizing earlier with
  | nil => rfl
  | cons file files ih =>
      have hhead : outcome settings earlier file = outcome settings [] file := by
        rw [outcome_eq_bind]
        cases halone : outcome settings [] file with
        | error w => rfl
        | ok a =>
            rcases enroll_ok_or_error earlier a with hok | ⟨first, hclash⟩
            · exact hok
            · refine absurd (mem_warnings_iff.mpr ?_) (hclashless a.id a.record.name first)
              apply List.mem_cons.mpr
              left
              rw [outcome_eq_bind, halone]
              exact hclash.symm
      rw [outcomes, List.map_cons, hhead, ih]
      intro id name first hclash
      apply hclashless id name first
      rw [mem_warnings_iff] at hclash ⊢
      exact List.mem_cons_of_mem _ (hhead ▸ hclash)

/-- Files with different names of their own do not clash. -/
theorem outcomes_eq_map_of_nodup
    (hnodup : ((accepted (files.map (outcome settings []))).map (·.record.name)).Nodup)
    (hfresh : ∀ a ∈ accepted (files.map (outcome settings [])), ∀ b ∈ earlier,
      b.record.name ≠ a.record.name) :
    outcomes settings earlier files = files.map (outcome settings []) := by
  induction files generalizing earlier with
  | nil => rfl
  | cons file files ih =>
      rw [outcomes, List.map_cons, outcome_eq_bind settings earlier]
      cases halone : outcome settings [] file with
      | error w =>
          rw [List.map_cons, halone, accepted_error_cons] at hnodup hfresh
          exact congrArg _ (ih hnodup hfresh)
      | ok a =>
          rw [List.map_cons, halone, accepted_ok_cons] at hnodup hfresh
          rw [List.map_cons, List.nodup_cons] at hnodup
          have hok : (Except.ok a).bind (enroll earlier) = .ok a :=
            enroll_eq_ok_iff.mpr (hfresh a List.mem_cons_self)
          rw [hok]
          refine congrArg _ (ih hnodup.2 fun b hb c hc => ?_)
          rcases List.mem_cons.mp hc with rfl | hc
          · intro heq
            apply hnodup.1
            rw [heq]
            exact List.mem_map_of_mem hb
          · exact hfresh b (List.mem_cons_of_mem _ hb) c hc

theorem accepted_perm {results rearranged : List (Except Warning Accepted)}
    (hperm : results.Perm rearranged) : (accepted results).Perm (accepted rearranged) :=
  hperm.filterMap _

/-- Whether names clash does not depend on the order of the files. -/
theorem outcomes_eq_map_of_perm (hperm : files.Perm others)
    (hclashless : Clashless (warnings (outcomes settings [] files))) :
    outcomes settings [] others = others.map (outcome settings []) := by
  have hnodup := (accepted_outcomes_names settings [] files).1
  rw [outcomes_eq_map_of_clashless hclashless] at hnodup
  have haccepted := accepted_perm (hperm.map (outcome settings []))
  apply outcomes_eq_map_of_nodup
  · exact ((haccepted.map (·.record.name)).nodup_iff).mp hnodup
  · intro _ _ b hb
    exact absurd hb List.not_mem_nil

/-- Without a clash, another order of the files gives the same outcomes in another order. -/
theorem outcomes_perm (hperm : files.Perm others)
    (hclashless : Clashless (warnings (outcomes settings [] files))) :
    (outcomes settings [] files).Perm (outcomes settings [] others) := by
  rw [outcomes_eq_map_of_clashless hclashless, outcomes_eq_map_of_perm hperm hclashless]
  exact hperm.map _

/-- The edges of accepted files, which are read off their sources and the names of their classes. -/
def edgesOf (files : List Accepted) : List Relationship :=
  files.flatMap fun a =>
    resolve a.language a.text.toList a.record.name (files.map (·.record.name)).contains

theorem edges_eq_edgesOf (settings : BatchSettings) (files : List SourceFile) :
    edges settings files = edgesOf (accepted (outcomes settings [] files)) := rfl

theorem edgesOf_perm {one other : List Accepted} (hperm : one.Perm other) :
    (edgesOf one).Perm (edgesOf other) := by
  have hknown : (one.map (·.record.name)).contains = (other.map (·.record.name)).contains := by
    funext name
    rw [Bool.eq_iff_iff, List.contains_iff_mem, List.contains_iff_mem]
    exact (hperm.map _).mem_iff
  unfold edgesOf
  rw [hknown]
  exact hperm.flatMap_right _

/-- The order of the files does not matter as long as no file clashes with another: then no file
clashes in any other order either, and the classes, the relationships and the warnings are the
same up to their order. -/
theorem assemble_perm (hvalid : settings.validate = .ok ()) (hperm : files.Perm others) :
    ∃ one other, assemble settings files = .ok one ∧ assemble settings others = .ok other ∧
      (Clashless one.warnings → Clashless other.warnings ∧
        one.model.classes.toList.Perm other.model.classes.toList ∧
        one.model.relationships.toList.Perm other.model.relationships.toList ∧
        one.warnings.Perm other.warnings) := by
  refine ⟨_, _, assemble_eq_ok hvalid files, assemble_eq_ok hvalid others, ?_⟩
  intro hclashless
  have houtcomes := outcomes_perm hperm hclashless
  have haccepted := accepted_perm houtcomes
  refine ⟨?_, ?_, ?_, houtcomes.filterMap _⟩
  · dsimp only
    rw [outcomes_eq_map_of_perm hperm hclashless]
    exact clashless_map_outcome_nil others
  · rw [classes_modelOf, classes_modelOf]
    exact haccepted.map _
  · rw [relationships_modelOf, relationships_modelOf]
    exact edgesOf_perm haccepted

/-- A class, its base and a file that is no source, in two orders. -/
theorem assemble_perm_base :
    let files : List SourceFile := [⟨"A.java", .loaded "class A extends B { }", none⟩,
      ⟨"notes.txt", .loaded "class N { }", none⟩, ⟨"B.java", .loaded "class B { }", none⟩]
    BatchSettings.default.validate = .ok () ∧ files.Perm files.reverse ∧
      ∃ one other, assemble .default files = .ok one ∧
        assemble .default files.reverse = .ok other ∧ Clashless one.warnings ∧
        one.model.classes.toList.Perm other.model.classes.toList ∧
        one.model.relationships.toList.Perm other.model.relationships.toList ∧
        other.model.relationships.toList = [⟨"A", "B", .inheritance⟩] ∧
        other.warnings = [.unsupportedExtension "notes.txt"] := by
  intro files
  have hvalid : BatchSettings.default.validate = .ok () := by decide
  have hperm : files.Perm files.reverse := (List.reverse_perm files).symm
  obtain ⟨one, other, hone, hother, hsame⟩ := assemble_perm hvalid hperm
  have hwarnings : one.warnings = [.unsupportedExtension "notes.txt"] := by
    obtain rfl := Except.ok.inj (hone.symm.trans (assemble_eq_ok hvalid files))
    decide +kernel
  have hclashless : Clashless one.warnings := by
    intro id name first
    simp [hwarnings]
  obtain ⟨_, hclasses, hrelationships, _⟩ := hsame hclashless
  refine ⟨hvalid, hperm, one, other, hone, hother, hclashless, hclasses, hrelationships, ?_, ?_⟩
  · obtain rfl := Except.ok.inj (hother.symm.trans (assemble_eq_ok hvalid files.reverse))
    rw [relationships_modelOf]
    decide +kernel
  · obtain rfl := Except.ok.inj (hother.symm.trans (assemble_eq_ok hvalid files.reverse))
    decide +kernel

end ClassDiagram.Batch
