import ClassDiagram.Proofs.Printed.CSharpHeader
import ClassDiagram.Proofs.Printed.HeldProperty
import ClassDiagram.Proofs.Resolution.Holder
import ClassDiagram.Proofs.Source.Order

/-!
# The relationships of a C# class

The relationships resolved from a C# class are one for each known type of its base list, an
implementation if the name of the type starts with `I` and an inheritance otherwise, and then one
association or composition for each property and each private field that holds a known type, in the
order in which they are written.
-/

namespace ClassDiagram

open Text Source Printed

/-! ## The relationships of a class as it is written -/

namespace Printed

/-- What a type of a base list is taken for, by its simple name. -/
def BaseItem.target (item : BaseItem) : String × RelationshipKind :=
  (String.ofList item.name.last.text,
    if item.name.last.text.head? = some 'I' then .implementation else .inheritance)

def CSharpHeader.targets (header : CSharpHeader) : List (String × RelationshipKind) :=
  header.bases.toList.flatMap fun list => list.items.map BaseItem.target

variable {language : Language}

/-- The type that a property holds. -/
def Member.propertyTarget? (m : Member language) : Option (String × RelationshipKind) :=
  match m.ending with
  | .property _ _ initializer =>
    if IsIdentifier m.declarator.type.text then
      some (heldTarget m.declarator.type.text (initializer.map (·.2)))
    else none
  | _ => none

/-- The type that a member holds, be it a property or a field. -/
def Member.heldTarget? (m : Member language) : Option (String × RelationshipKind) :=
  m.propertyTarget?.or m.target?

def Member.heldBy? (m : Member language) (offset : Nat) : Option Holder :=
  (m.propertyHolder? offset).or (m.holder? offset)

/-- A member is not both a property and a field. -/
theorem Member.propertyHolder?_or_holder? (m : Member language) (offset : Nat) :
    m.propertyHolder? offset = none ∨ m.holder? offset = none := by
  obtain ⟨leading, d, ending⟩ := m
  cases ending with
  | field gap initializer => exact .inl rfl
  | method gap parameters clauses body => exact .inl rfl
  | property hcsharp accessors initializer => exact .inr rfl

end Printed

namespace Resolution

variable {language : Language}

/-! ## Candidates -/

theorem entry_heldBy? (m : Member language) (offset : Nat) :
    (m.heldBy? offset).map (fun h => (Candidate.ofHolder h).entry) = m.heldTarget? := by
  have hfield := entry_holder? m offset
  rw [Member.heldBy?, Member.heldTarget?, ← hfield]
  obtain ⟨leading, d, ending⟩ := m
  cases ending with
  | field gap initializer => rfl
  | method gap parameters clauses body => rfl
  | property hcsharp accessors initializer =>
      simp only [Member.propertyHolder?, Member.propertyTarget?]
      split
      next => exact congrArg some (entry_ofHolder offset d.type.text (initializer.map (·.2)))
      next => rfl

theorem offset_heldBy? {m : Member language} {offset : Nat} {h : Holder}
    (hm : m.heldBy? offset = some h) : h.offset = offset := by
  rw [Member.heldBy?, Option.or_eq_some_iff] at hm
  rcases hm with hm | ⟨_, hm⟩
  · obtain ⟨leading, d, ending⟩ := m
    cases ending with
    | field gap initializer => exact absurd hm (by simp [Member.propertyHolder?])
    | method gap parameters clauses body => exact absurd hm (by simp [Member.propertyHolder?])
    | property hcsharp accessors initializer =>
        simp only [Member.propertyHolder?] at hm
        split at hm
        next => exact (Option.some.inj hm) ▸ rfl
        next => exact absurd hm (by simp)
  · exact offset_holder? hm

/-- Properties and fields are found in two passes. Sorting puts them into the order of the source,
behind the candidates in front of the body. -/
theorem mergeSort_candidates {bases : List Candidate} {start : Nat}
    (hbases : bases.Pairwise fun a b => a.offset ≤ b.offset)
    (hfront : ∀ a ∈ bases, a.offset ≤ start) (ms : List (Member language)) :
    ((bases ++ (((placed 0 ms).filterMap fun (o, m) => m.propertyHolder? (start + o)) ++
        (placed 0 ms).filterMap fun (o, m) => m.holder? (start + o)).map
          Candidate.ofHolder).mergeSort fun a b => a.offset ≤ b.offset) =
      bases ++ ((placed 0 ms).filterMap fun (o, m) => m.heldBy? (start + o)).map
        Candidate.ofHolder := by
  have hperm := (filterMap_append_perm
    (fun (x : Nat × Member language) => x.2.propertyHolder? (start + x.1))
    (fun x => x.2.holder? (start + x.1)) (placed 0 ms)
    fun x _ => x.2.propertyHolder?_or_holder? _).map Candidate.ofHolder
  obtain ⟨hpairwise, hstart⟩ := pairwise_found Member.heldBy? offset_heldBy? start ms
  have hsorted := mergeSort_eq_of_perm Candidate.offset hperm hpairwise
  refine (mergeSort_append Candidate.offset hbases ?_).trans (congrArg (bases ++ ·) hsorted)
  intro a ha b hb
  exact Nat.le_trans (hfront a ha) (hstart b (hperm.mem_iff.mp hb))

/-- The candidates of a base list. -/
def ofCSharpBases (start : Nat) (header : CSharpHeader) : List Candidate :=
  (Header.csharpBases header.text).toList.flatMap (Candidate.ofClause csharpBaseKind start)

/-- The candidates of a base list point at its types. -/
theorem entries_csharpBases (start : Nat) (header : CSharpHeader) :
    (ofCSharpBases start header).map Candidate.entry = header.targets := by
  rw [ofCSharpBases, header.csharpBases_text, CSharpHeader.targets]
  cases header.bases with
  | none => rfl
  | some list =>
      simp only [Option.map_some, Option.toList_some, List.flatMap_singleton, Candidate.ofClause,
        List.map_map]
      apply List.map_congr_left
      intro item _
      simp only [Function.comp_def, Candidate.entry, item.simpleName_core]
      rfl

/-- The candidates of a base list stand where its colon does. -/
theorem offset_csharpBases {start : Nat} {header : CSharpHeader} {a : Candidate}
    (h : a ∈ ofCSharpBases start header) : a.offset = start + byteLength header.beforeBases := by
  rw [ofCSharpBases, header.csharpBases_text] at h
  cases hbases : header.bases with
  | none => simp [hbases] at h
  | some list =>
      simp only [hbases, Option.map_some, Option.toList_some, List.flatMap_singleton,
        Candidate.ofClause, List.mem_map] at h
      obtain ⟨item, _, rfl⟩ := h
      rfl

theorem pairwise_csharpBases (start : Nat) (header : CSharpHeader) :
    (ofCSharpBases start header).Pairwise fun a b => a.offset ≤ b.offset := by
  apply List.pairwise_of_forall_mem_list
  intro a ha b hb
  rw [offset_csharpBases ha, offset_csharpBases hb]

end Resolution

/-- The relationships of a class that C# source declares are those of its base list, and then those
of its properties and fields, in order. -/
theorem resolve_csharp_text (c : Class .csharp) (header : CSharpHeader)
    (hlacks : ∀ m ∈ c.members, m.Lacks Language.csharp.accessKeywords)
    (hplain : ∀ m ∈ c.members, ∀ modifier ∈ m.declarator.modifiers,
      modifier.word ∉ Language.csharp.accessKeywords) (known : String → Bool) :
    resolve .csharp (c.textWith header.heading) (String.ofList c.name.text) known =
      ((header.targets ++ c.members.filterMap Member.heldTarget?).filter (known ·.1)).map
        fun (target, kind) => ⟨String.ofList c.name.text, target, kind⟩ := by
  have hprivate : ∀ w ∈ ["private"], w ∈ Language.csharp.accessKeywords := by decide
  have hfields := c.holder_fieldsWith header.heading
    (fun m hm s hs => mentions_of_subset hprivate (hlacks m hm s hs))
    fun m hm modifier hmodifier heq => hplain m hm modifier hmodifier (heq ▸ by decide)
  have hproperties := c.holder_autoPropertiesWith header.heading hlacks hplain
  have hslice := c.slice_heading header.heading
  -- The colon of the base list stands in front of the body.
  have hfront : ∀ a ∈ Resolution.ofCSharpBases (c.declarationWith header.heading).header.start
      header, a.offset ≤ (c.declarationWith header.heading).body.start := by
    intro a ha
    rw [Resolution.offset_csharpBases ha]
    simp only [Class.declarationWith, Class.frontWith, CSharpHeader.heading, CSharpParts.text,
      CSharpParts.front, byteLength_append]
    omega
  have hcandidates : Resolution.candidates .csharp
      (Masked.ofSource (c.textWith header.heading)).skeleton (c.declarationWith header.heading) =
      Resolution.ofCSharpBases (c.declarationWith header.heading).header.start header ++
        ((placed 0 c.members).filterMap fun x =>
          x.2.heldBy? ((c.declarationWith header.heading).body.start + x.1)).map
            Candidate.ofHolder := by
    have hbases := Resolution.pairwise_csharpBases (c.declarationWith header.heading).header.start
      header
    rw [Resolution.candidates, Resolution.ofHeader, hslice, Resolution.holders, hproperties,
      hfields]
    exact Resolution.mergeSort_candidates hbases hfront c.members
  refine resolve_eq_of_entries (c.find?_textWith header.heading) ?_ known
  rw [hcandidates, List.map_append, Resolution.entries_csharpBases, List.map_map,
    List.map_filterMap]
  exact congrArg _ (filterMap_placed (fun o m => Resolution.entry_heldBy? m _) 0 c.members)

namespace Printed

def typeNamed (name : String) (h : IsIdentifier name.toList) : TypeText :=
  ⟨⟨[], ⟨name.toList, h⟩⟩, none, [], false⟩

/-- A header with every part, and with commas, colons and parentheses between brackets. -/
def sampleCSharpHeader : CSharpHeader where
  parameters := some ⟨.none, "S".toList, by decide⟩
  construction := some ⟨.none, "Pier<S> pier, (int, int) spot".toList, by decide⟩
  gap := .space
  bases := some ⟨⟨.space, ⟨[⟨"port".toList, by decide⟩], ⟨"Dock".toList, by decide⟩⟩,
    some ⟨.none, "Pier<S>, S".toList, by decide⟩, some ⟨.none, "depth: (1)".toList, by decide⟩,
    .none⟩, [⟨.space, ⟨[], ⟨"IMoored".toList, by decide⟩⟩, none, none, .space⟩]⟩
  constraints := [⟨.space, ⟨"S".toList, by decide⟩, .space, " Buoy, new() ".toList, by decide⟩]
  allowed := by decide +kernel
  starts := by decide +kernel
  free := by decide +kernel
  apart := by decide +kernel

def sampleCSharpMember (access : String) (hmem : access ∈ Language.csharp.accessKeywords)
    (modifiers : List Modifier) (type : TypeText)
    (hfree : mentions Language.modifiers none type.text = false) (ending : Ending .csharp) :
    Member .csharp where
  leading := .space
  declarator := {
    access := access
    access_mem := hmem
    modifiers := modifiers
    typeGap := .space
    type := type
    type_free := hfree
    nameGap := .space
    name := ⟨"berth".toList, by decide⟩
    name_free := by decide }
  ending := ending

def sampleAccessors : Accessors .csharp where
  before := .space
  getter := ⟨.space, none, "get", List.mem_singleton_self "get", .none⟩
  setter := ⟨.space, some ⟨"private", private_mem .csharp, .space⟩, "init", by decide, .none⟩
  after := .space

def harbour (members : List (Member .csharp)) : Class .csharp where
  leading := .none
  modifiers := []
  keyword := "class"
  mem := class_mem .csharp
  gap := .space
  name := ⟨"Harbour".toList, by decide⟩
  header := .space
  members := members
  closing := .space
  after := []

/-- A class with a field and a property that hold their types, and a property that does not. -/
def sampleCSharpClass : Class .csharp := harbour [
  sampleCSharpMember "private" (private_mem .csharp) [⟨.space, "volatile", by decide⟩]
    (typeNamed "Pier" (by decide)) (by decide +kernel) (.field .none none),
  sampleCSharpMember "public" (public_mem .csharp) []
    ⟨⟨[], ⟨"Queue".toList, by decide⟩⟩, some ⟨⟨.none, "Buoy".toList, by decide⟩, by decide⟩, [],
      false⟩
    (by decide +kernel) (.property rfl sampleAccessors none),
  sampleCSharpMember "public" (public_mem .csharp) [⟨.space, "override", by decide⟩]
    (typeNamed "Ferry" (by decide)) (by decide +kernel) (.property rfl sampleAccessors
      (some (.space, ⟨" new port.Ferry(\";\")".toList, by decide +kernel, by decide +kernel⟩)))]

end Printed

theorem resolve_csharp_text_sampleCSharpClass :
    (∀ m ∈ sampleCSharpClass.members, m.Lacks Language.csharp.accessKeywords) ∧
      (∀ m ∈ sampleCSharpClass.members, ∀ modifier ∈ m.declarator.modifiers,
        modifier.word ∉ Language.csharp.accessKeywords) ∧
      resolve .csharp (sampleCSharpClass.textWith sampleCSharpHeader.heading) "Harbour"
          (["Dock", "IMoored", "Pier", "Buoy", "Ferry"].contains ·) =
        [⟨"Harbour", "Dock", .inheritance⟩, ⟨"Harbour", "IMoored", .implementation⟩,
          ⟨"Harbour", "Pier", .association⟩, ⟨"Harbour", "Ferry", .composition⟩] := by
  have hlacks : ∀ m ∈ sampleCSharpClass.members, m.Lacks Language.csharp.accessKeywords := by
    decide +kernel
  have hplain : ∀ m ∈ sampleCSharpClass.members, ∀ modifier ∈ m.declarator.modifiers,
      modifier.word ∉ Language.csharp.accessKeywords := by decide +kernel
  refine ⟨hlacks, hplain,
    (resolve_csharp_text sampleCSharpClass sampleCSharpHeader hlacks hplain _).trans ?_⟩
  decide +kernel

namespace Printed

def bareCSharpHeader : CSharpHeader where
  parameters := none
  construction := none
  gap := .space
  bases := none
  constraints := []
  allowed := by decide
  starts := by decide +kernel
  free := by decide
  apart := by decide

/-- A class with a method that declares a class with a field. -/
def localKeeper : Class .csharp := harbour [
  sampleCSharpMember "public" (public_mem .csharp) [] (typeNamed "Dues" (by decide))
    (by decide +kernel)
    (.method .none ⟨⟨"int days".toList, by decide, by decide +kernel⟩, by decide +kernel⟩ .space
      (some ⟨" class L { private Pier p; } ".toList, by decide +kernel, by decide +kernel⟩))]

end Printed

/-- A field of a class inside a method counts as a field of the class around the method. -/
theorem resolve_csharp_text_localKeeper :
    localKeeper.textWith bareCSharpHeader.heading =
        "class Harbour { public Dues berth(int days) { class L { private Pier p; } } }".toList ∧
      bareCSharpHeader.targets ++ localKeeper.members.filterMap Member.heldTarget? = [] ∧
      resolve .csharp (localKeeper.textWith bareCSharpHeader.heading) "Harbour"
          (["Harbour", "Pier"].contains ·) = [⟨"Harbour", "Pier", .association⟩] :=
  ⟨by decide +kernel, by decide +kernel, by decide +kernel⟩

end ClassDiagram
