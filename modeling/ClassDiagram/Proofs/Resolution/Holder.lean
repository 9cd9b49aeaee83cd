import ClassDiagram.Proofs.Header.TypeList
import ClassDiagram.Proofs.Printed.Held
import ClassDiagram.Resolution

/-!
# What the members of a class hold

A member that holds its type points at it: it is composed of the type if its initializer constructs
it, and associated with it otherwise. The candidates that the members of a class give are in the
order in which the members are written.
-/

namespace ClassDiagram

open Text Source Printed

variable {language : Language}

namespace Printed

/-- Whether an initializer constructs a type of a simple name with `new`. -/
def Builds (name : List Char) : Option Stretch → Prop
  | none => False
  | some s => TypeList.Constructs name s.untilSemicolon

/-- An initializer is found to construct a type if it does. -/
theorem constructedBy?_eq_some_iff {name : List Char} {initializer : Option Stretch} :
    constructedBy? initializer = some name ↔ Builds name initializer := by
  cases initializer with
  | none => simp [constructedBy?, Builds]
  | some s => exact TypeList.constructed?_eq_some_iff

instance (name : List Char) (initializer : Option Stretch) : Decidable (Builds name initializer) :=
  decidable_of_iff _ constructedBy?_eq_some_iff

/-- A type that is held. It is composed of if the initializer constructs it. -/
def heldTarget (type : List Char) (initializer : Option Stretch) : String × RelationshipKind :=
  (String.ofList type, if Builds type initializer then .composition else .association)

/-- The type that a field holds. The field is composed of it if it constructs it. -/
def Member.target? (m : Member language) : Option (String × RelationshipKind) :=
  match m.ending with
  | .field _ initializer =>
    if m.declarator.Holds then
      some (String.ofList m.declarator.type.text,
        if Builds m.declarator.type.text initializer then .composition else .association)
    else none
  | _ => none

end Printed

def Candidate.entry (c : Candidate) : String × RelationshipKind := (c.target, c.kind)

namespace Resolution

theorem entry_ofHolder (offset : Nat) (type : List Char) (initializer : Option Stretch) :
    (Candidate.ofHolder ⟨offset, String.ofList type,
      (constructedBy? initializer).map String.ofList⟩).entry = heldTarget type initializer := by
  have hconstructed : (constructedBy? initializer).map String.ofList =
      some (String.ofList type) ↔ Builds type initializer := by
    rw [← constructedBy?_eq_some_iff, Option.map_eq_some_iff]
    simp [String.ofList_inj]
  simp only [Candidate.ofHolder, Candidate.entry, hconstructed, heldTarget]

theorem entry_holder? (m : Member language) (offset : Nat) :
    (m.holder? offset).map (fun h => (Candidate.ofHolder h).entry) = m.target? := by
  obtain ⟨leading, d, ending⟩ := m
  cases ending with
  | method gap parameters clauses body => rfl
  | property hcsharp accessors initializer => rfl
  | field gap initializer =>
      simp only [Member.holder?, Member.target?]
      split
      next => exact congrArg some (entry_ofHolder offset d.type.text initializer)
      next => rfl

theorem offset_holder? {m : Member language} {offset : Nat} {h : Holder}
    (hm : m.holder? offset = some h) : h.offset = offset := by
  obtain ⟨leading, d, ending⟩ := m
  cases ending with
  | method gap parameters clauses body => exact absurd hm (by simp [Member.holder?])
  | property hcsharp accessors initializer => exact absurd hm (by simp [Member.holder?])
  | field gap initializer =>
      simp only [Member.holder?] at hm
      split at hm
      next => exact (Option.some.inj hm) ▸ rfl
      next => exact absurd hm (by simp)

/-- The holders found in members are in order, and none stands in front of the first member. -/
theorem pairwise_found (found : Member language → Nat → Option Holder)
    (hfound : ∀ {m offset h}, found m offset = some h → h.offset = offset) (start : Nat)
    (ms : List (Member language)) :
    (((placed 0 ms).filterMap fun (o, m) => found m (start + o)).map Candidate.ofHolder).Pairwise
        (fun a b => a.offset < b.offset) ∧
      ∀ a ∈ ((placed 0 ms).filterMap fun (o, m) => found m (start + o)).map Candidate.ofHolder,
        start ≤ a.offset := by
  refine ⟨List.pairwise_map.mpr ((pairwise_placed 0 ms).1.filterMap _ fun a b hab x hx y hy => ?_),
    fun a ha => ?_⟩
  · have hx := hfound hx
    have hy := hfound hy
    simp only [Candidate.ofHolder]
    omega
  · obtain ⟨h, hmem, rfl⟩ := List.mem_map.mp ha
    obtain ⟨⟨o, m⟩, _, hm⟩ := List.mem_filterMap.mp hmem
    have := hfound hm
    simp only [Candidate.ofHolder]
    omega

/-- The fields of a class that hold their types are in order, and none stands in front of its body.
-/
theorem pairwise_holders (start : Nat) (ms : List (Member language)) :
    (((placed 0 ms).filterMap fun (o, m) => m.holder? (start + o)).map Candidate.ofHolder).Pairwise
        (fun a b => a.offset ≤ b.offset) ∧
      ∀ a ∈ ((placed 0 ms).filterMap fun (o, m) => m.holder? (start + o)).map Candidate.ofHolder,
        start ≤ a.offset := by
  obtain ⟨hpairwise, hstart⟩ := pairwise_found Member.holder? offset_holder? start ms
  exact ⟨hpairwise.imp Nat.le_of_lt, hstart⟩

end Resolution

/-- The relationships of a class are what its candidates point at, as far as it is known. -/
theorem resolve_eq_of_entries {source : List Char} {d : Declaration}
    (hfind : Declaration.find? language (Masked.ofSource source).skeleton = some d)
    {targets : List (String × RelationshipKind)}
    (hentries : (Resolution.candidates language (Masked.ofSource source).skeleton d).map
      Candidate.entry = targets) (known : String → Bool) :
    resolve language source d.name known =
      (targets.filter (known ·.1)).map fun (target, kind) => ⟨d.name, target, kind⟩ := by
  rw [resolve, Resolution.ofSkeleton, hfind]
  simp only [if_true]
  rw [← hentries, List.filter_map, List.map_map]
  rfl

end ClassDiagram
