import ClassDiagram.Proofs.Declaration.Closed
import ClassDiagram.Proofs.Header.Order
import ClassDiagram.Proofs.Member.Place
import ClassDiagram.Proofs.Source.Order
import ClassDiagram.Resolution

/-!
# The order of relationships

The relationships of a class are collected in several passes over its header and its body, and then
sorted by the offsets of clauses and members. The result is in the order of the source: header
clauses stand in front of the body, their types have one offset and keep their order, and no two
members start at the same place, as what breaks the text of a field is not what breaks that of a
property. Which names are known only decides which of the relationships are left.
-/

namespace ClassDiagram

open Text Source

variable {language : Language} {source skeleton : List Char} {owner : String}

/-! ## Known names -/

/-- With fewer known names, a source gives the relationships whose targets are still known. -/
theorem resolve_eq_filter {known others : String → Bool}
    (hknown : ∀ name, known name = true → others name = true) (language : Language)
    (source : List Char) (owner : String) :
    resolve language source owner known =
      (resolve language source owner others).filter fun r => known r.target := by
  unfold resolve Resolution.ofSkeleton
  split
  next => rfl
  next d _ =>
    split
    next =>
      rw [List.filter_map, List.filter_filter]
      congr 1
      refine List.filter_congr fun c _ => ?_
      rw [Bool.eq_iff_iff, Bool.and_eq_true]
      exact ⟨fun h => ⟨h, hknown _ h⟩, And.left⟩
    next => rfl

/-- Resolution only gives edges from the owner to known names. -/
theorem mem_resolve {language : Language} {source : List Char} {owner : String}
    {known : String → Bool} {r : Relationship} (hr : r ∈ resolve language source owner known) :
    r.source = owner ∧ known r.target = true := by
  unfold resolve Resolution.ofSkeleton at hr
  split at hr
  next => simp at hr
  next d _ =>
    split at hr
    next =>
      obtain ⟨c, hc, rfl⟩ := List.mem_map.mp hr
      exact ⟨rfl, (List.mem_filter.mp hc).2⟩
    next => simp at hr

/-! ## Relationships in the order of the source -/

namespace Resolution

/-- What a type that a base clause lists is taken for. -/
def clauseKind (language : Language) (clause : HeaderClause) (name : List Char) :
    RelationshipKind :=
  match language with
  | .java => if clause.keyword = "extends".toList then .inheritance else .implementation
  | .csharp => csharpBaseKind name

/-- What a base clause gives, type by type. -/
def clauseRelationships (language : Language) (owner : String) (clause : HeaderClause) :
    List Relationship :=
  clause.items.map fun item =>
    let name := TypeList.simpleName item
    ⟨owner, String.ofList name, clauseKind language clause name⟩

/-- What a member gives that may hold another class. -/
def memberRelationship (owner : String) (member : Holder) : Relationship where
  source := owner
  target := member.type
  kind := if member.constructed = some member.type then .composition else .association

/-- Clauses and members as they follow each other in a declaration: clauses and their types in the
header, and behind it the members of the body, no two of them at the same place. -/
structure SourceOrder (language : Language) (skeleton : List Char) (d : Declaration)
    (clauses : List HeaderClause) (members : List Holder) : Prop where
  header : Header.AreInOrder clauses (slice skeleton d.header)
  clause_lt : ∀ clause ∈ clauses, d.header.start + clause.offset < d.header.stop
  le_member : ∀ member ∈ members, d.header.stop ≤ member.offset
  increasing : members.Pairwise fun a b => a.offset < b.offset
  perm : members.Perm (holders language skeleton d.body)

/-! ## Members -/

theorem nodup_offset_holders (language : Language) (skeleton : List Char) (body : Span) :
    ((holders language skeleton body).map Holder.offset).Nodup := by
  cases language with
  | java =>
      have hnodup := (Member.heldFieldForm .java).nodup_offsets_within skeleton body
      simp only [holders, Holder.fields, List.map_map]
      exact hnodup
  | csharp =>
      have hnodup := (Member.autoPropertyForm_breaks .csharp).nodup_offsets
        (Member.heldFieldForm_breaks .csharp) (by decide) skeleton body
      simp only [holders, Holder.autoProperties, Holder.fields, List.map_append,
        List.map_map] at hnodup ⊢
      exact hnodup

theorem start_le_of_mem_holders {body : Span} {member : Holder}
    (h : member ∈ holders language skeleton body) : body.start ≤ member.offset := by
  have hwithin : ∀ form : Member.Form, member ∈ ((form.within skeleton body).map fun found =>
      Holder.ofPhrase found.1 found.2) → body.start ≤ member.offset := by
    intro form hmember
    obtain ⟨⟨o, p⟩, hp, rfl⟩ := List.mem_map.mp hmember
    obtain ⟨_, _, _, ho, _⟩ := form.mem_within hp
    exact ho ▸ Nat.le_add_right _ _
  cases language with
  | java => exact hwithin _ h
  | csharp =>
      rcases List.mem_append.mp h with hproperty | hfield
      · exact hwithin _ hproperty
      · exact hwithin _ hfield

/-- The members of a body in the order in which they start. -/
def sorted (members : List Holder) : List Holder :=
  members.mergeSort fun a b => a.offset ≤ b.offset

/-- The spans of a declaration: its header stands in front of its body. -/
theorem header_of_find? {d : Declaration} (hfind : Declaration.find? language skeleton = some d) :
    d.header.start + byteLength (slice skeleton d.header) = d.header.stop ∧
      d.header.stop ≤ d.body.start := by
  obtain ⟨front, header, rest, rfl, hheader, hbody⟩ := Declaration.exists_parts_of_find? hfind
  have hslice : slice (front ++ (header ++ rest)) d.header = header := by
    rw [hheader]
    exact slice_append_of_eq rfl (byteLength_append _ _)
  rw [hslice, hheader]
  refine ⟨(byteLength_append _ _).symm, ?_⟩
  rcases hbody with hbody | ⟨_, _, _, hbody, _⟩
  · rw [hbody]
  · rw [hbody, byteLength_append (front ++ header)]
    exact Nat.le_add_right _ _

theorem sourceOrder {d : Declaration} (hfind : Declaration.find? language skeleton = some d) :
    SourceOrder language skeleton d (Header.clauses language (slice skeleton d.header))
      (sorted (holders language skeleton d.body)) := by
  obtain ⟨hheader, hbody⟩ := header_of_find? hfind
  have hclauses := Header.areInOrder_clauses language (slice skeleton d.header)
  constructor
  case header => exact hclauses
  case clause_lt =>
    intro clause hclause
    have hwithin := hclauses.within clause hclause
    omega
  case le_member =>
    intro member hmember
    have hstart := start_le_of_mem_holders (List.mem_mergeSort.mp hmember)
    exact Nat.le_trans hbody hstart
  case increasing => exact pairwise_lt_mergeSort Holder.offset (nodup_offset_holders _ _ _)
  case perm => exact List.mergeSort_perm _ _

/-! ## Candidates -/

theorem ofHeader_eq (language : Language) (skeleton : List Char) (header : Span) :
    ofHeader language skeleton header =
      (Header.clauses language (slice skeleton header)).flatMap fun clause =>
        Candidate.ofClause (clauseKind language clause) header.start clause := by
  cases language with
  | java => rfl
  | csharp => rfl

/-- The candidates of clauses have the offsets of their clauses, which increase. -/
theorem pairwise_ofClauses {clauses : List HeaderClause} {header : List Char}
    (h : Header.AreInOrder clauses header)
    (kind : HeaderClause → List Char → RelationshipKind) (start : Nat) :
    (clauses.flatMap fun clause => Candidate.ofClause (kind clause) start clause).Pairwise
      fun a b => a.offset ≤ b.offset := by
  have hoffset : ∀ clause, ∀ c ∈ Candidate.ofClause (kind clause) start clause,
      c.offset = start + clause.offset := by
    intro clause c hc
    obtain ⟨_, _, rfl⟩ := List.mem_map.mp hc
    rfl
  apply List.pairwise_flatMap.mpr
  constructor
  · intro clause _
    apply List.pairwise_of_forall_mem_list
    intro a ha b hb
    rw [hoffset clause a ha, hoffset clause b hb]
  · apply h.increasing.imp
    intro clause next hlt a ha b hb
    rw [hoffset clause a ha, hoffset next b hb]
    omega

/-- Sorting leaves the candidates of the header in front, and puts those of the body in order. -/
theorem candidates_eq {d : Declaration} (hfind : Declaration.find? language skeleton = some d) :
    candidates language skeleton d =
      ((Header.clauses language (slice skeleton d.header)).flatMap fun clause =>
        Candidate.ofClause (clauseKind language clause) d.header.start clause) ++
        (sorted (holders language skeleton d.body)).map Candidate.ofHolder := by
  have horder := sourceOrder hfind
  have hmembers : ((holders language skeleton d.body).map Candidate.ofHolder).mergeSort
      (fun a b => a.offset ≤ b.offset) =
        (sorted (holders language skeleton d.body)).map Candidate.ofHolder :=
    mergeSort_eq_of_perm Candidate.offset (horder.perm.symm.map _)
      (List.pairwise_map.mpr horder.increasing)
  rw [candidates, ofHeader_eq, ← hmembers]
  refine mergeSort_append Candidate.offset (pairwise_ofClauses horder.header _ _) ?_
  intro a ha b hb
  obtain ⟨clause, hclause, ha⟩ := List.mem_flatMap.mp ha
  obtain ⟨_, _, rfl⟩ := List.mem_map.mp ha
  obtain ⟨member, hmember, rfl⟩ := List.mem_map.mp hb
  have hbefore := horder.clause_lt clause hclause
  have hbehind := horder.le_member member (horder.perm.mem_iff.mpr hmember)
  exact Nat.le_trans (Nat.le_of_lt hbefore) hbehind

/-- The relationships that a class gives are those of its clauses and then those of its members, as
far as their targets are known. -/
theorem resolve_eq {d : Declaration}
    (hfind : Declaration.find? language (Masked.ofSource source).skeleton = some d)
    (known : String → Bool) :
    resolve language source d.name known =
      ((Header.clauses language (slice (Masked.ofSource source).skeleton d.header)).flatMap
          (clauseRelationships language d.name) ++
        (sorted (holders language (Masked.ofSource source).skeleton d.body)).map
          (memberRelationship d.name)).filter fun r => known r.target := by
  have hclause : ∀ clause, (Candidate.ofClause (clauseKind language clause) d.header.start
      clause).map (fun c => (⟨d.name, c.target, c.kind⟩ : Relationship)) =
        clauseRelationships language d.name clause := by
    intro clause
    rw [Candidate.ofClause, List.map_map]
    rfl
  have hcandidates : (candidates language (Masked.ofSource source).skeleton d).map
      (fun c => (⟨d.name, c.target, c.kind⟩ : Relationship)) =
        (Header.clauses language (slice (Masked.ofSource source).skeleton d.header)).flatMap
          (clauseRelationships language d.name) ++
        (sorted (holders language (Masked.ofSource source).skeleton d.body)).map
          (memberRelationship d.name) := by
    rw [candidates_eq hfind, List.map_append, List.map_flatMap, List.map_map]
    simp only [hclause]
    rfl
  rw [resolve, ofSkeleton, hfind, ← hcandidates, List.filter_map]
  simp only [if_true]
  rfl

end Resolution

/-- Knowing fewer names only removes the relationships to those that are no longer known. All
relationships start at the owner, which has none if the first declaration has another name. They
come in the order of the source: first those of the base clauses, clause by clause and type by type,
then those of the members, none of which start at the same place. -/
theorem resolve_inOrder (language : Language) (source : List Char) (owner : String) :
    (∀ known others : String → Bool, (∀ name, known name = true → others name = true) →
      resolve language source owner known =
        (resolve language source owner others).filter fun r => known r.target) ∧
    (∀ known, ∀ r ∈ resolve language source owner known, r.source = owner) ∧
    ((∀ d, Declaration.find? language (Masked.ofSource source).skeleton = some d →
      d.name ≠ owner) → ∀ known, resolve language source owner known = []) ∧
    ∀ d, Declaration.find? language (Masked.ofSource source).skeleton = some d →
      d.name = owner →
      ∃ clauses members,
        clauses = Header.clauses language (slice (Masked.ofSource source).skeleton d.header) ∧
        Resolution.SourceOrder language (Masked.ofSource source).skeleton d clauses members ∧
        ∀ known, resolve language source owner known =
          (clauses.flatMap (Resolution.clauseRelationships language owner) ++
            members.map (Resolution.memberRelationship owner)).filter fun r =>
              known r.target := by
  refine ⟨?_, ?_, ?_, ?_⟩
  · intro known others hknown
    exact resolve_eq_filter hknown language source owner
  · intro known r hr
    exact (mem_resolve hr).1
  · intro hother known
    rw [resolve, Resolution.ofSkeleton]
    split
    next => rfl
    next d hfind => rw [if_neg (hother d hfind)]
  · rintro d hfind rfl
    exact ⟨_, _, rfl, Resolution.sourceOrder hfind, Resolution.resolve_eq hfind⟩

/-- A class with two base types, and with a field between two properties. -/
def garage : List Char := String.toList
  "class G : B, I { public Car a { get; set; } private L l = new L(); public Car b { get; set; } }"

/-- The field is found after both properties, and stands between them. -/
theorem resolve_inOrder_garage :
    (∀ name, ["B", "Car"].contains name = true → (fun _ => true) name = true) ∧
      resolve .csharp garage "G" ["B", "Car"].contains =
        [⟨"G", "B", .inheritance⟩, ⟨"G", "Car", .association⟩, ⟨"G", "Car", .association⟩] ∧
      resolve .csharp garage "L" (fun _ => true) = [] ∧
      ∃ d, Declaration.find? .csharp (Masked.ofSource garage).skeleton = some d ∧ d.name = "G" ∧
        Resolution.holders .csharp (Masked.ofSource garage).skeleton d.body =
          [⟨17, "Car", none⟩, ⟨67, "Car", none⟩, ⟨44, "L", some "L"⟩] ∧
        resolve .csharp garage "G" (fun _ => true) =
          [⟨"G", "B", .inheritance⟩, ⟨"G", "I", .implementation⟩,
            ⟨"G", "Car", .association⟩, ⟨"G", "L", .composition⟩,
            ⟨"G", "Car", .association⟩] := by
  obtain ⟨hfilter, _, _, horder⟩ := resolve_inOrder .csharp garage "G"
  have hknown : ∀ name, ["B", "Car"].contains name = true → (fun _ => true) name = true :=
    fun _ _ => rfl
  have hfind : Declaration.find? .csharp (Masked.ofSource garage).skeleton =
      some ⟨"class", "G", ⟨7, 15⟩, ⟨16, 94⟩⟩ := by decide +kernel
  have hholders : Resolution.holders .csharp (Masked.ofSource garage).skeleton ⟨16, 94⟩ =
      [⟨17, "Car", none⟩, ⟨67, "Car", none⟩, ⟨44, "L", some "L"⟩] := by decide +kernel
  have hother : ∀ d, Declaration.find? .csharp (Masked.ofSource garage).skeleton = some d →
      d.name ≠ "L" := by
    intro d hd
    obtain rfl := Option.some.inj (hfind.symm.trans hd)
    decide
  have hall : resolve .csharp garage "G" (fun _ => true) =
      [⟨"G", "B", .inheritance⟩, ⟨"G", "I", .implementation⟩, ⟨"G", "Car", .association⟩,
        ⟨"G", "L", .composition⟩, ⟨"G", "Car", .association⟩] := by
    obtain ⟨clauses, members, hclauses, hsource, hresolve⟩ := horder _ hfind rfl
    have hperm := hsource.perm
    rw [hholders] at hperm
    have hmembers :
        members = [⟨17, "Car", none⟩, ⟨44, "L", some "L"⟩, ⟨67, "Car", none⟩] := by
      rw [← mergeSort_eq_of_perm Holder.offset hperm.symm hsource.increasing]
      exact mergeSort_eq_of_perm Holder.offset (by decide) (by decide)
    rw [hresolve, hclauses, hmembers]
    decide +kernel
  refine ⟨hknown, ?_, ?_, _, hfind, rfl, hholders, hall⟩
  · rw [hfilter _ _ hknown, hall]
    decide
  · exact (resolve_inOrder .csharp garage "L").2.2.1 hother _

end ClassDiagram
