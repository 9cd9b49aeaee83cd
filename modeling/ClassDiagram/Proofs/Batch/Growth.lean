import ClassDiagram.Proofs.Batch.Conservation

/-!
# Growing batches

Files added at the end of a batch change nothing of what the batch gave before. They add classes,
warnings, and the relationships that start or end at an added class: a source is read again, but
more of the names in it are known.
-/

namespace ClassDiagram

namespace Batch

variable (settings : BatchSettings) (files more : List SourceFile)

theorem outcomes_append (earlier : List Accepted) :
    outcomes settings earlier (files ++ more) =
      outcomes settings earlier files ++ outcomes settings
        ((accepted (outcomes settings earlier files)).reverse ++ earlier) more := by
  induction files generalizing earlier with
  | nil => rfl
  | cons file files ih =>
      rw [List.cons_append, outcomes, outcomes, ih, accepted_cons]
      cases outcome settings earlier file with
      | error w => rfl
      | ok a => simp [Except.toOption]

/-- The files that are accepted of those added to a batch. -/
def acceptedMore : List Accepted :=
  accepted (outcomes settings (accepted (outcomes settings [] files)).reverse more)

theorem accepted_outcomes_append :
    accepted (outcomes settings [] (files ++ more)) =
      accepted (outcomes settings [] files) ++ acceptedMore settings files more := by
  rw [outcomes_append, List.append_nil, accepted, List.filterMap_append]
  rfl

/-- The names of the classes of a batch. -/
def acceptedNames : List String := (accepted (outcomes settings [] files)).map (·.record.name)

/-- The names of the classes that the added files give. -/
def namesMore : List String := (acceptedMore settings files more).map (·.record.name)

theorem acceptedNames_append :
    acceptedNames settings (files ++ more) =
      acceptedNames settings files ++ namesMore settings files more := by
  rw [acceptedNames, accepted_outcomes_append, List.map_append, acceptedNames, namesMore]

/-- The added names are new. -/
theorem not_mem_namesMore {name : String} (hname : name ∈ acceptedNames settings files) :
    name ∉ namesMore settings files more := by
  have hnodup : (acceptedNames settings (files ++ more)).Nodup :=
    (accepted_outcomes_names settings [] (files ++ more)).1
  rw [acceptedNames_append] at hnodup
  exact fun hmore => (List.nodup_append.mp hnodup).2.2 name hname name hmore rfl

/-- A relationship that neither starts nor ends at an added class. -/
def IsEarlier (r : Relationship) : Prop :=
  r.source ∉ namesMore settings files more ∧ r.target ∉ namesMore settings files more

instance : DecidablePred (IsEarlier settings files more) :=
  fun _ => inferInstanceAs (Decidable (_ ∧ _))

/-- A source of the batch gives the relationships it gave before, and those to added classes. -/
theorem resolve_append {a : Accepted} (ha : a.record.name ∈ acceptedNames settings files) :
    resolve a.language a.text.toList a.record.name (acceptedNames settings files).contains =
      (resolve a.language a.text.toList a.record.name
        (acceptedNames settings (files ++ more)).contains).filter
          (IsEarlier settings files more) := by
  have hknown : ∀ name, (acceptedNames settings files).contains name = true →
      (acceptedNames settings (files ++ more)).contains name = true := by
    intro name hname
    rw [List.contains_iff_mem] at hname ⊢
    rw [acceptedNames_append]
    exact List.mem_append_left _ hname
  rw [resolve_eq_filter hknown]
  refine List.filter_congr fun r hr => ?_
  obtain ⟨hsource, htarget⟩ := mem_resolve hr
  rw [List.contains_iff_mem, acceptedNames_append, List.mem_append] at htarget
  rw [Bool.eq_iff_iff, List.contains_iff_mem, decide_eq_true_eq, IsEarlier, hsource]
  constructor
  · exact fun htarget => ⟨not_mem_namesMore settings files more ha,
      not_mem_namesMore settings files more htarget⟩
  · exact fun hearlier => htarget.resolve_right hearlier.2

/-- The added sources only give relationships that start at an added class. -/
theorem filter_resolve_acceptedMore {a : Accepted} (ha : a ∈ acceptedMore settings files more)
    (known : String → Bool) :
    (resolve a.language a.text.toList a.record.name known).filter
      (IsEarlier settings files more) = [] := by
  refine List.filter_eq_nil_iff.mpr fun r hr => ?_
  rw [decide_eq_true_eq, IsEarlier, (mem_resolve hr).1]
  exact fun hearlier => hearlier.1 (List.mem_map_of_mem ha)

theorem edges_eq_filter :
    edges settings files =
      (edges settings (files ++ more)).filter (IsEarlier settings files more) := by
  have hadded : ((acceptedMore settings files more).flatMap fun a =>
      (resolve a.language a.text.toList a.record.name
        (acceptedNames settings (files ++ more)).contains).filter
          (IsEarlier settings files more)) = [] :=
    List.flatMap_eq_nil_iff.mpr fun _ ha => filter_resolve_acceptedMore settings files more ha _
  change _ = ((accepted (outcomes settings [] (files ++ more))).flatMap fun a =>
    resolve a.language a.text.toList a.record.name
      (acceptedNames settings (files ++ more)).contains).filter _
  rw [List.filter_flatMap, accepted_outcomes_append, List.flatMap_append, hadded, List.append_nil]
  exact List.flatMap_congr fun a ha => resolve_append settings files more (List.mem_map_of_mem ha)

theorem relationships_modelOf :
    (modelOf (accepted (outcomes settings [] files))).relationships.toList =
      edges settings files := by
  rw [modelOf_eq_addRelationships,
    (consistent_classModel settings files).relationships_addRelationships fun r hr => edges_join hr]
  simp [classModel, Model.empty]

variable {settings}

/-- A batch that grows keeps what it has: its classes come first, its warnings come first, and of
the relationships, in their order, it has those that neither start nor end at an added class. -/
theorem assemble_append (hvalid : settings.validate = .ok ()) :
    ∃ small large added, assemble settings files = .ok small ∧
      assemble settings (files ++ more) = .ok large ∧
      large.model.classes.toList = small.model.classes.toList ++ added ∧
      small.warnings <+: large.warnings ∧
      small.model.relationships.toList.Sublist large.model.relationships.toList ∧
      small.model.relationships.toList = large.model.relationships.toList.filter fun r =>
        r.source ∉ added.map (·.name) ∧ r.target ∉ added.map (·.name) := by
  have hfilter : (modelOf (accepted (outcomes settings [] files))).relationships.toList =
      (modelOf (accepted (outcomes settings [] (files ++ more)))).relationships.toList.filter
        (IsEarlier settings files more) := by
    rw [relationships_modelOf, relationships_modelOf]
    exact edges_eq_filter settings files more
  refine ⟨_, _, (acceptedMore settings files more).map (·.record), assemble_eq_ok hvalid files,
    assemble_eq_ok hvalid (files ++ more), ?_, ?_, ?_, ?_⟩
  · rw [classes_modelOf, classes_modelOf, accepted_outcomes_append, List.map_append]
  · rw [outcomes_append, warnings, warnings, List.filterMap_append]
    exact List.prefix_append _ _
  · rw [hfilter]
    exact List.filter_sublist
  · rw [List.map_map]
    exact hfilter

/-- With a third file, the base of a class becomes known, and a class of a name that is taken is
refused. -/
theorem assemble_append_base :
    BatchSettings.default.validate = .ok () ∧
      ∃ small large, assemble .default [⟨"A.java", .loaded "class A extends B { }", none⟩] =
          .ok small ∧
        assemble .default ([⟨"A.java", .loaded "class A extends B { }", none⟩] ++
          [⟨"B.java", .loaded "class B { }", none⟩, ⟨"A.cs", .loaded "class A { }", none⟩]) =
            .ok large ∧
        small.model.relationships.toList.Sublist large.model.relationships.toList ∧
        small.model.relationships.toList = [] ∧
        large.model.relationships.toList = [⟨"A", "B", .inheritance⟩] := by
  have hvalid : BatchSettings.default.validate = .ok () := by decide
  obtain ⟨small, large, _, hsmall, hlarge, _, _, hsublist, _⟩ :=
    assemble_append [⟨"A.java", .loaded "class A extends B { }", none⟩]
      [⟨"B.java", .loaded "class B { }", none⟩, ⟨"A.cs", .loaded "class A { }", none⟩] hvalid
  refine ⟨hvalid, small, large, hsmall, hlarge, hsublist, ?_, ?_⟩
  · obtain rfl := Except.ok.inj (hsmall.symm.trans (assemble_eq_ok hvalid _))
    rw [relationships_modelOf]
    decide +kernel
  · obtain rfl := Except.ok.inj (hlarge.symm.trans (assemble_eq_ok hvalid _))
    rw [relationships_modelOf]
    decide +kernel

end Batch

end ClassDiagram
