import ClassDiagram.Proofs.Printed.JavaHeader
import ClassDiagram.Proofs.Resolution.Holder

/-!
# The relationships of a Java class

The relationships resolved from a Java class are one inheritance for each known type after
`extends`, one implementation for each known type after `implements`, and one association or
composition for each field that holds a known type, in the order in which they are written.
-/

namespace ClassDiagram

open Text Source Printed

/-! ## The relationships of a class as it is written -/

namespace Printed

/-- The simple names of the types in a list, each as the target of a relationship. -/
def BaseList.targets (kind : RelationshipKind) (list : BaseList) :
    List (String × RelationshipKind) :=
  list.types.map fun type => (String.ofList type.name.last.text, kind)

/-- What a clause points at. Permitted types are no base types. -/
def BaseClause.targets (clause : BaseClause) : List (String × RelationshipKind) :=
  if clause.keyword = "extends" then clause.list.targets .inheritance
  else if clause.keyword = "implements" then clause.list.targets .implementation
  else []

def JavaHeader.targets (header : JavaHeader) : List (String × RelationshipKind) :=
  header.extended.toList.flatMap (BaseList.targets .inheritance) ++
    header.implemented.toList.flatMap (BaseList.targets .implementation)

end Printed

/-! ## Candidates -/

namespace Resolution

def ofJavaClause (start : Nat) (clause : HeaderClause) : List Candidate :=
  Candidate.ofClause
    (fun _ => if clause.keyword = "extends".toList then .inheritance else .implementation)
    start clause

theorem entries_headerClause (start offset : Nat) (clause : BaseClause) :
    ((clause.headerClause? offset).toList.flatMap (ofJavaClause start)).map Candidate.entry =
      clause.targets := by
  unfold BaseClause.headerClause?
  split
  next hkeyword =>
    simp only [Option.toList_some, List.flatMap_singleton, ofJavaClause, Candidate.ofClause,
      List.map_map, Function.comp_def, Candidate.entry, BaseType.simpleName_core,
      BaseClause.targets, String.toList_inj]
    rcases hkeyword with hkeyword | hkeyword <;> rw [hkeyword] <;> rfl
  next hkeyword =>
    rw [not_or] at hkeyword
    rw [BaseClause.targets, if_neg hkeyword.1, if_neg hkeyword.2]
    rfl

/-- The candidates of a header point at its base types. -/
theorem entries_javaClauses (start : Nat) (header : JavaHeader) :
    ((Header.javaClauses header.text).flatMap (ofJavaClause start)).map Candidate.entry =
      header.targets := by
  have hclauses : ∀ offset clauses,
      (placedClauses offset clauses).flatMap (fun x => x.2.targets) =
        clauses.flatMap (·.targets) := by
    intro offset clauses
    induction clauses generalizing offset with
    | nil => rfl
    | cons clause clauses ih => rw [placedClauses, List.flatMap_cons, List.flatMap_cons, ih]
  rw [header.javaClauses_text, List.filterMap_eq_flatMap_toList, List.flatMap_assoc,
    List.map_flatMap]
  simp only [entries_headerClause, hclauses]
  rw [JavaHeader.clauses, JavaHeader.targets, javaClauses]
  simp [List.flatMap_append, List.flatMap_map, BaseClause.targets]

theorem offset_headerClause {start offset : Nat} {clause : BaseClause} {a : Candidate}
    (h : a ∈ (clause.headerClause? offset).toList.flatMap (ofJavaClause start)) :
    a.offset = start + offset := by
  unfold BaseClause.headerClause? at h
  split at h
  next =>
    simp only [Option.toList_some, List.flatMap_singleton, ofJavaClause, Candidate.ofClause,
      List.mem_map] at h
    obtain ⟨item, _, rfl⟩ := h
    rfl
  next => exact absurd h (by simp)

/-- The candidates of a header are in order, and none stands behind it. -/
theorem pairwise_javaClauses (start : Nat) (header : JavaHeader) :
    ((Header.javaClauses header.text).flatMap (ofJavaClause start)).Pairwise
        (fun a b => a.offset ≤ b.offset) ∧
      ∀ a ∈ (Header.javaClauses header.text).flatMap (ofJavaClause start),
        a.offset ≤ start + byteLength header.text := by
  obtain ⟨hpairwise, hbounds⟩ := pairwise_placedClauses header.clausesStart header.clauses
  rw [header.javaClauses_text, List.filterMap_eq_flatMap_toList, List.flatMap_assoc]
  refine ⟨List.pairwise_flatMap.mpr ⟨fun place _ => ?_, hpairwise.imp fun hle a ha b hb => ?_⟩,
    fun a ha => ?_⟩
  · apply List.pairwise_of_forall_mem_list
    intro a ha b hb
    rw [offset_headerClause ha, offset_headerClause hb]
  · rw [offset_headerClause ha, offset_headerClause hb]
    exact Nat.add_le_add_left hle start
  · obtain ⟨place, hplace, ha⟩ := List.mem_flatMap.mp ha
    have hbound := (hbounds place hplace).2
    rw [offset_headerClause ha, JavaHeader.text, byteLength_append, byteLength_append]
    rw [JavaHeader.clausesStart] at hbound
    omega

end Resolution

/-- The relationships of a class that Java source declares are those of its header and of its
fields, in order. -/
theorem resolve_java_text (c : Class .java) (header : JavaHeader) (hheader : c.header.text = header.text)
    (hlacks : ∀ m ∈ c.members, m.Lacks ["private"])
    (hplain : ∀ m ∈ c.members, ∀ modifier ∈ m.declarator.modifiers, modifier.word ≠ "private")
    (known : String → Bool) :
    resolve .java c.text (String.ofList c.name.text) known =
      ((header.targets ++ c.members.filterMap Member.target?).filter (known ·.1)).map
        fun (target, kind) => ⟨String.ofList c.name.text, target, kind⟩ := by
  have hslice : slice (Masked.ofSource c.text).skeleton c.declaration.header = header.text := by
    rw [c.slice_header, hheader]
  have hfields := c.holder_fields hlacks hplain
  obtain ⟨hpairwise, hbound⟩ := Resolution.pairwise_javaClauses c.declaration.header.start header
  have hcandidates : Resolution.candidates .java (Masked.ofSource c.text).skeleton c.declaration =
      (Header.javaClauses header.text).flatMap
          (Resolution.ofJavaClause c.declaration.header.start) ++
        (Holder.fields .java (Masked.ofSource c.text).skeleton c.declaration.body).map
          Candidate.ofHolder := by
    rw [Resolution.candidates, Resolution.ofHeader, hslice]
    -- Every clause stands in front of the body, so the candidates are in order from the start.
    refine List.mergeSort_of_pairwise ((List.pairwise_append.mpr ⟨hpairwise, ?_⟩).imp decide_eq_true)
    obtain ⟨hholders, hstart⟩ := Resolution.pairwise_holders c.declaration.body.start c.members
    rw [Resolution.holders, hfields]
    refine ⟨hholders, fun a ha b hb => ?_⟩
    have hfirst := hbound a ha
    have hsecond := hstart b hb
    have hsize :
        c.declaration.header.start + byteLength header.text < c.declaration.body.start := by
      simp only [Class.declaration, Class.front, ← hheader, byteLength_append]
      omega
    omega
  have hentries : (Resolution.candidates .java (Masked.ofSource c.text).skeleton
      c.declaration).map Candidate.entry = header.targets ++ c.members.filterMap Member.target? := by
    rw [hcandidates, List.map_append, Resolution.entries_javaClauses, hfields, List.map_map,
      List.map_filterMap]
    exact congrArg _ (filterMap_placed (fun o m => Resolution.entry_holder? m _) 0 c.members)
  rw [resolve, Resolution.ofSkeleton, c.find?_text]
  simp only [Class.declaration, if_true]
  rw [← hentries, List.filter_map, List.map_map]
  rfl

namespace Printed

/-- A header with every clause, and with keywords between angle brackets. -/
def sampleHeader : JavaHeader where
  parameters := some ⟨.none, "T extends Lot<T>".toList, by decide⟩
  leading := .space
  extended := some ⟨⟨.space, ⟨[⟨"base".toList, by decide⟩], ⟨"Shop".toList, by decide⟩⟩,
    by decide +kernel, some ⟨⟨.none, "Map<T, ? extends Annex>".toList, by decide⟩, by decide⟩,
    .space⟩, [], Gap.space.ne_nil⟩
  implemented := some ⟨⟨.space, ⟨[], ⟨"Runnable".toList, by decide⟩⟩, by decide +kernel, none,
    .none⟩, [⟨.space, ⟨[], ⟨"Lot".toList, by decide⟩⟩, by decide +kernel, none, .space⟩],
    Gap.space.ne_nil⟩
  permitted := some ⟨⟨.space, ⟨[], ⟨"Annex".toList, by decide⟩⟩, by decide +kernel, none, .space⟩,
    [], Gap.space.ne_nil⟩
  apart := by decide +kernel

def sampleField (modifiers : List Modifier) (type : TypeText)
    (hfree : mentions Language.modifiers none type.text = false) (initializer : Option Stretch) :
    Member .java where
  leading := .space
  declarator := {
    access := "private"
    access_mem := by decide
    modifiers := modifiers
    typeGap := .space
    type := type
    type_free := hfree
    nameGap := .space
    name := ⟨"part".toList, by decide⟩
    name_free := by decide }
  ending := .field .none initializer

/-- A class with fields that hold their types and one that does not. -/
def sampleJavaClass : Class .java where
  leading := .none
  modifiers := [⟨⟨"abstract".toList, by decide⟩, .space, by decide⟩]
  keyword := "class"
  mem := class_mem .java
  gap := .space
  name := ⟨"Depot".toList, by decide⟩
  header := ⟨sampleHeader.text, by decide +kernel, by decide +kernel⟩
  members := [
    sampleField [⟨.space, "final", by decide⟩] ⟨⟨[], ⟨"Engine".toList, by decide⟩⟩, none, [], false⟩
      (by decide +kernel)
      (some ⟨" new pkg.Engine(\";\")".toList, by decide +kernel, by decide +kernel⟩),
    sampleField [] ⟨⟨[], ⟨"List".toList, by decide⟩⟩,
      some ⟨⟨.none, "Annex".toList, by decide⟩, by decide⟩, [], false⟩ (by decide +kernel) none,
    sampleField [] ⟨⟨[], ⟨"Lot".toList, by decide⟩⟩, none, [], false⟩ (by decide +kernel) none]
  closing := .space
  after := []

end Printed

theorem resolve_java_text_sampleJavaClass :
    sampleJavaClass.header.text = sampleHeader.text ∧
      (∀ m ∈ sampleJavaClass.members, m.Lacks ["private"]) ∧
      (∀ m ∈ sampleJavaClass.members, ∀ modifier ∈ m.declarator.modifiers,
        modifier.word ≠ "private") ∧
      resolve .java sampleJavaClass.text "Depot" (["Shop", "Lot", "Engine", "Annex"].contains ·) =
        [⟨"Depot", "Shop", .inheritance⟩, ⟨"Depot", "Lot", .implementation⟩,
          ⟨"Depot", "Engine", .composition⟩, ⟨"Depot", "Lot", .association⟩] := by
  have hlacks : ∀ m ∈ sampleJavaClass.members, m.Lacks ["private"] := by decide +kernel
  have hplain : ∀ m ∈ sampleJavaClass.members, ∀ modifier ∈ m.declarator.modifiers,
      modifier.word ≠ "private" := by decide +kernel
  refine ⟨rfl, hlacks, hplain,
    (resolve_java_text sampleJavaClass sampleHeader rfl hlacks hplain _).trans ?_⟩
  decide +kernel

namespace Printed

/-- A class with a method that declares a class with a field. -/
def localHolder : Class .java :=
  methodClass ⟨" class L { private B b; } ".toList, by decide +kernel, by decide +kernel⟩

def bareHeader : JavaHeader := ⟨none, .space, none, none, none, by decide⟩

end Printed

/-- A field of a class inside a method counts as a field of the class around the method. -/
theorem resolve_java_text_localHolder :
    localHolder.text = "class A { public void f() { class L { private B b; } } }".toList ∧
      localHolder.header.text = bareHeader.text ∧
      bareHeader.targets ++ localHolder.members.filterMap Member.target? = [] ∧
      resolve .java localHolder.text "A" (["A", "B"].contains ·) = [⟨"A", "B", .association⟩] :=
  ⟨by decide +kernel, rfl, by decide +kernel, by decide +kernel⟩

end ClassDiagram
