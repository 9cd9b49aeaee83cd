import ClassDiagram.Language
import ClassDiagram.Proofs.Header.BaseList
import ClassDiagram.Proofs.Header.TypeList

/-!
# The order of base clauses

The base clauses of a header are listed as they follow each other, and so are the types of each
clause: all listed types of a header stand in it one behind the other.
-/

namespace ClassDiagram

open Text Source

namespace Text

/-- The parts stand in a text one behind the other, in their order. -/
inductive InOrder : List (List Char) → List Char → Prop
  | nil (text : List Char) : InOrder [] text
  | cons (gap part : List Char) {parts : List (List Char)} {rest : List Char}
      (h : InOrder parts rest) : InOrder (part :: parts) (gap ++ (part ++ rest))

namespace InOrder

variable {parts others : List (List Char)} {text further : List Char}

theorem behind (h : InOrder parts text) (front : List Char) : InOrder parts (front ++ text) := by
  cases h with
  | nil => exact .nil _
  | cons gap part hrest =>
      rw [← List.append_assoc]
      exact .cons (front ++ gap) part hrest

theorem append (h : InOrder parts text) (hothers : InOrder others further) :
    InOrder (parts ++ others) (text ++ further) := by
  induction h with
  | nil text => exact hothers.behind text
  | cons gap part _ ih =>
      rw [List.append_assoc, List.append_assoc]
      exact .cons gap part ih

theorem filter (h : InOrder parts text) (p : List Char → Bool) :
    InOrder (parts.filter p) text := by
  induction h with
  | nil text => exact .nil text
  | cons gap part _ ih =>
      rw [List.filter_cons]
      split
      next => exact .cons gap part ih
      next => exact (ih.behind part).behind gap

theorem map_trim (h : InOrder parts text) : InOrder (parts.map trim) text := by
  induction h with
  | nil text => exact .nil text
  | cons gap part _ ih =>
      obtain ⟨before, after, _, _, hpart⟩ := exists_trim part
      have hparts := InOrder.cons (gap ++ before) (trim part) (ih.behind after)
      rw [List.map_cons]
      -- Only the text of the part is taken apart, not what is trimmed.
      generalize trim part = core at hpart hparts ⊢
      rw [hpart]
      simpa using hparts

end InOrder

end Text

/-! ## The types of a list -/

namespace TypeList

theorem inOrder_divideFrom (depth : Nat) (current cs : List Char) :
    InOrder (divideFrom depth current cs) (current.reverse ++ cs) := by
  induction cs generalizing depth current with
  | nil => exact .cons [] current.reverse (.nil [])
  | cons c cs ih =>
      have hon : ∀ next, InOrder (divideFrom next (c :: current) cs)
          (current.reverse ++ c :: cs) := by
        intro next
        simpa using ih next (c :: current)
      rw [divideFrom]
      split
      next => exact hon _
      next =>
        split
        next => exact hon _
        next =>
          split
          next => exact .cons [] current.reverse ((ih 0 []).behind [c])
          next => exact hon _

/-- The entries of a list of types stand in it in their order. -/
theorem inOrder_split (list : List Char) : InOrder (split list) list :=
  ((inOrder_divideFrom 0 [] list).map_trim).filter _

end TypeList

/-! ## The clauses of a header -/

namespace Header

/-- The base clauses of a header. -/
def clauses (language : Language) (header : List Char) : List HeaderClause :=
  match language with
  | .java => javaClauses header
  | .csharp => (csharpBases header).toList

/-- Clauses are listed as they stand in a header, and so are the types they list. -/
structure AreInOrder (clauses : List HeaderClause) (header : List Char) : Prop where
  increasing : clauses.Pairwise fun a b => a.offset < b.offset
  within : ∀ clause ∈ clauses, clause.offset < byteLength header
  items : InOrder (clauses.flatMap (·.items)) header

theorem offsets_clausesAt (shift : Nat) (rest : List Char) (found : List (Nat × List Char)) :
    ((clausesAt shift rest found).map (·.offset)).Sublist (found.map (shift + ·.1)) := by
  induction found with
  | nil => exact .slnil
  | cons entry further ih =>
      simp only [clausesAt, List.map_cons]
      split
      next => exact ih.cons_cons _
      next => exact ih.cons _

/-- The types of clauses stand behind each other, if the keywords of the clauses do. -/
theorem inOrder_clausesAt (shift : Nat) {rest : List Char} {found : List (Nat × List Char)}
    (hfound : ∀ entry ∈ found, entry ∈ occurrences keyword? List.length rest)
    (hapart : found.Pairwise fun a b => a.1 + byteLength a.2 ≤ b.1) {front back : List Char}
    (hparts : rest = front ++ back) (hfront : ∀ entry ∈ found, byteLength front ≤ entry.1) :
    InOrder ((clausesAt shift rest found).flatMap (·.items)) back := by
  induction found generalizing front back with
  | nil => exact .nil back
  | cons entry further ih =>
      obtain ⟨start, word⟩ := entry
      obtain ⟨hhead, hlater⟩ := List.forall_mem_cons.mp hfound
      obtain ⟨hnext, hfurther⟩ := List.pairwise_cons.mp hapart
      obtain ⟨before, after, hrest, rfl⟩ := exists_parts_of_keyword hhead
      obtain ⟨between, rfl, rfl⟩ := exists_between_of_byteLength_le (hparts.symm.trans hrest)
        (hfront _ List.mem_cons_self)
      obtain ⟨list, behind, rfl, hstop, hbehind⟩ := exists_endsAt hrest hlater hnext hfurther
      have hremaining : rest = (front ++ between ++ word ++ list) ++ behind := by simp [hrest]
      have hothers := ih hlater hfurther hremaining hbehind
      rw [clausesAt_cons shift word hstop]
      split
      next =>
        have hlist : slice rest ⟨byteLength (front ++ between) + byteLength word,
            byteLength (front ++ between ++ word ++ list)⟩ = list := by
          rw [show rest = (front ++ between ++ word) ++ (list ++ behind) by simp [hrest]]
          exact slice_append_of_eq (byteLength_append _ _).symm (byteLength_append _ _)
        rw [List.flatMap_cons, hlist]
        exact (((TypeList.inOrder_split list).append hothers).behind word).behind between
      next => exact ((hothers.behind list).behind word).behind between

/-- The clauses are those that the keywords behind the type parameters open. -/
theorem javaClauses_eq {header parameters : List Char}
    (hparts : header = parameters ++ TypeList.afterParameters header) :
    javaClauses header = clausesAt (byteLength parameters) (TypeList.afterParameters header)
      (topKeywords ['<'] ['>'] (TypeList.afterParameters header)) := by
  have hsize := congrArg byteLength hparts
  rw [byteLength_append] at hsize
  rw [javaClauses, hsize, Nat.add_sub_cancel]

theorem areInOrder_javaClauses (header : List Char) : AreInOrder (javaClauses header) header := by
  obtain ⟨front, hparts, _⟩ := TypeList.exists_isLeading header
  rw [javaClauses_eq hparts]
  generalize TypeList.afterParameters header = rest at hparts ⊢
  subst hparts
  have hfound : ∀ entry ∈ topKeywords ['<'] ['>'] rest,
      entry ∈ occurrences keyword? List.length rest := by
    intro entry hentry
    exact (List.mem_filter.mp hentry).1
  have hoffsets := offsets_clausesAt (byteLength front) rest (topKeywords ['<'] ['>'] rest)
  constructor
  case increasing =>
    have hkeywords : (topKeywords ['<'] ['>'] rest).Pairwise fun a b => a.1 < b.1 :=
      (pairwise_lt_occurrencesFrom _ _ _ _ _ _).filter _
    have hshifted : ((topKeywords ['<'] ['>'] rest).map (byteLength front + ·.1)).Pairwise
        (· < ·) := by
      apply List.pairwise_map.mpr
      exact hkeywords.imp fun hlt => Nat.add_lt_add_left hlt _
    exact List.pairwise_map.mp (hshifted.sublist hoffsets)
  case within =>
    intro clause hclause
    obtain ⟨entry, hentry, hoffset⟩ := List.mem_map.mp
      (hoffsets.subset (List.mem_map_of_mem hclause))
    obtain ⟨before, back, ⟨rfl, hne⟩, hplace, _⟩ := mem_occurrencesFrom (hfound entry hentry)
    have hback := byteLength_pos hne
    rw [← hoffset, byteLength_append, byteLength_append]
    omega
  case items =>
    apply InOrder.behind
    exact inOrder_clausesAt (byteLength front) hfound (pairwise_topKeywords ['<'] ['>'] rest)
      (List.nil_append rest).symm fun _ _ => Nat.zero_le _

theorem areInOrder_csharpBases (header : List Char) :
    AreInOrder (csharpBases header).toList header := by
  obtain ⟨front, constraints, hparts, hstart⟩ := exists_parts_of_constraintsStart header
  have htake : takeBytes (byteLength front) header = front := by rw [hparts, takeBytes_append]
  rw [csharpBases, hstart, htake]
  cases hcolon : colonFrom 0 0 front with
  | none => exact ⟨.nil, nofun, .nil _⟩
  | some found =>
      obtain ⟨colon, list⟩ := found
      obtain ⟨before, after, rfl, rfl, rfl⟩ := colonFrom_eq_some hcolon
      constructor
      case increasing => exact List.pairwise_singleton _ _
      case within =>
        intro clause hclause
        obtain rfl := List.mem_singleton.mp hclause
        have hmark : ':'.utf8Size = 1 := by decide
        simp only [hparts, byteLength_append, byteLength_cons, hmark]
        omega
      case items =>
        have hitems := (TypeList.inOrder_split after).append (.nil constraints)
        rw [hparts]
        simpa using hitems.behind (before ++ [':'])

theorem areInOrder_clauses (language : Language) (header : List Char) :
    AreInOrder (clauses language header) header := by
  cases language with
  | java => exact areInOrder_javaClauses header
  | csharp => exact areInOrder_csharpBases header

end Header

end ClassDiagram
