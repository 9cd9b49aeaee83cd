import ClassDiagram.Proofs.Header.BaseList
import ClassDiagram.Proofs.Header.TypeList
import ClassDiagram.Proofs.Text.Cut

/-!
# Headers with checked cuts

The readings of a header once more, with every part of the text taken by a checked cut at byte
offsets. On every text, all cuts succeed and give what is read without checks.
-/

namespace ClassDiagram.Checked

open Text Source Header

/-! ## Lists of types -/

/-- The spans between the commas that stand outside all brackets. `start` is where the present part
begins, and `offset` is that of the text. -/
def parts (depth start offset : Nat) : List Char → List Span
  | [] => [⟨start, offset⟩]
  | c :: cs =>
    if c = '<' || c = '(' then parts (depth + 1) start (offset + c.utf8Size) cs
    else if c = '>' || c = ')' then parts (depth - 1) start (offset + c.utf8Size) cs
    else if c = ',' && depth = 0 then
      ⟨start, offset⟩ :: parts 0 (offset + 1) (offset + c.utf8Size) cs
    else parts depth start (offset + c.utf8Size) cs

/-- The entries of a list of types. -/
def split (list : List Char) : Option (List (List Char)) := do
  let entries ← (parts 0 0 0 list).mapM (cut? list)
  some ((entries.map trim).filter (!·.isEmpty))

theorem mapM_parts {list front part cs : List Char} (hlist : list = front ++ (part ++ cs))
    (depth : Nat) :
    (parts depth (byteLength front) (byteLength (front ++ part)) cs).mapM (cut? list) =
      some (TypeList.divideFrom depth part.reverse cs) := by
  induction cs generalizing front part depth with
  | nil =>
      rw [parts, List.mapM_cons, cut?_append hlist rfl rfl, TypeList.divideFrom,
        List.reverse_reverse]
      rfl
  | cons c cs ih =>
      have hon : ∀ next,
          (parts next (byteLength front) (byteLength (front ++ part) + c.utf8Size) cs).mapM
            (cut? list) = some (TypeList.divideFrom next (c :: part.reverse) cs) := by
        intro next
        have hrest := @ih front (part ++ [c]) (by simp [hlist]) next
        simpa [Nat.add_assoc] using hrest
      rw [parts, TypeList.divideFrom]
      split
      next => exact hon _
      next =>
        split
        next => exact hon _
        next =>
          split
          next hcomma =>
            obtain ⟨rfl, _⟩ : c = ',' ∧ depth = 0 := by simpa using hcomma
            have hrest : (parts 0 (byteLength (front ++ part) + 1)
                (byteLength (front ++ part) + ','.utf8Size) cs).mapM (cut? list) =
                  some (TypeList.divideFrom 0 [] cs) := by
              have hmark : ','.utf8Size = 1 := by decide
              simpa [hmark, Nat.add_assoc] using
                @ih (front ++ (part ++ [','])) [] (by simp [hlist]) 0
            rw [List.mapM_cons, cut?_append hlist rfl rfl, hrest, List.reverse_reverse]
            rfl
          next => exact hon _

theorem split_eq (list : List Char) : split list = some (TypeList.split list) := by
  have hparts := @mapM_parts list [] [] list rfl 0
  simp only [split, List.nil_append, List.reverse_nil, byteLength_nil] at hparts ⊢
  rw [hparts]
  rfl

/-- The byte offset of the first character with `p`, or that of the end. -/
def offsetOf (p : Char → Bool) (offset : Nat) : List Char → Nat
  | [] => offset
  | c :: cs => if p c then offset else offsetOf p (offset + c.utf8Size) cs

theorem offsetOf_eq (p : Char → Bool) (offset : Nat) (cs : List Char) :
    offsetOf p offset cs = offset + byteLength (cs.takeWhile (!p ·)) := by
  induction cs generalizing offset with
  | nil => rfl
  | cons c cs ih =>
      rw [offsetOf]
      split
      next hp => simp [hp]
      next hp =>
        rw [ih, List.takeWhile_cons_of_pos (by simp [hp]), byteLength_cons, Nat.add_assoc]

/-- The name of a type without its qualifiers and without arguments, array brackets and the like.
-/
def simpleName (type : List Char) : Option (List Char) := do
  let name ← cut? (trim type) ⟨0, offsetOf TypeList.endsName 0 (trim type)⟩
  some (trim (TypeList.lastSegment (trim name)))

theorem simpleName_eq (type : List Char) : simpleName type = some (TypeList.simpleName type) := by
  have hname : cut? (trim type) ⟨0, offsetOf TypeList.endsName 0 (trim type)⟩ =
      some ((trim type).takeWhile (!TypeList.endsName ·)) :=
    cut?_append (a := []) List.takeWhile_append_dropWhile.symm rfl
      (by rw [offsetOf_eq, Nat.zero_add, List.nil_append])
  rw [simpleName, hname]
  rfl

/-- The part of a header after the type parameters it starts with, if it starts with any. -/
def afterParameters (header : List Char) : Option (List Char) :=
  match trimStart header with
  | '<' :: cs =>
    match partner? '<' '>' 0 ('<' :: cs) with
    | some close => cut? ('<' :: cs) ⟨close + 1, byteLength ('<' :: cs)⟩
    | none => some []
  | trimmed => some trimmed

theorem afterParameters_eq (header : List Char) :
    afterParameters header = some (TypeList.afterParameters header) := by
  by_cases hhead : ∃ cs, trimStart header = '<' :: cs
  · obtain ⟨cs, htrimmed⟩ := hhead
    rw [afterParameters, TypeList.afterParameters, htrimmed]
    cases hclose : partner? '<' '>' 0 ('<' :: cs) with
    | none => simp only [hclose]
    | some close =>
        obtain ⟨inside, rest, hcs, rfl, _⟩ := closingFrom_eq_some hclose
        have hmark : '>'.utf8Size = 1 := by decide
        have hparts : '<' :: cs = (inside ++ ['>']) ++ rest := by simp [hcs]
        have hsize : 0 + byteLength inside + 1 = byteLength (inside ++ ['>']) := by
          simp [hmark]
        simp only [hclose]
        rw [hsize, hparts, dropBytes_append]
        exact cut?_append (b := []) (by simp) rfl rfl
  · rw [TypeList.afterParameters_of_head]
    · unfold afterParameters
      split
      next cs hcs => exact absurd ⟨cs, hcs⟩ hhead
      next => rfl
    · rintro c hc rfl
      obtain ⟨cs, hcs⟩ := List.head?_eq_some_iff.mp hc
      exact hhead ⟨cs, hcs⟩

/-! ## Clauses -/

/-- The keywords of a header that stand at nesting depth zero, with their byte offsets. -/
def topKeywords (opening closing : List Char) (header : List Char) :
    Option (List (Nat × List Char)) := do
  let judged ← (occurrences keyword? List.length header).mapM fun found => do
    let front ← cut? header ⟨0, found.1⟩
    some (found, decide (nesting opening closing front = 0))
  some ((judged.filter (·.2)).map (·.1))

theorem topKeywords_eq (opening closing header : List Char) :
    topKeywords opening closing header = some (Header.topKeywords opening closing header) := by
  have hjudged : ((occurrences keyword? List.length header).mapM fun found => do
      let front ← cut? header ⟨0, found.1⟩
      some (found, decide (nesting opening closing front = 0))) =
        some ((occurrences keyword? List.length header).map fun found =>
          (found, decide (nesting opening closing (takeBytes found.1 header) = 0))) := by
    refine mapM_eq_some fun ⟨offset, word⟩ hfound => ?_
    obtain ⟨front, rest, rfl, rfl⟩ := exists_parts_of_keyword hfound
    rw [takeBytes_append]
    have hcut : cut? (front ++ (word ++ rest)) ⟨0, byteLength front⟩ = some front :=
      cut?_append (a := []) rfl rfl rfl
    simp [hcut]
  rw [topKeywords, hjudged, Header.topKeywords]
  simp [List.filter_map, Function.comp_def]

/-- The clauses that start at the given keywords of `rest`. -/
def clausesAt (shift : Nat) (rest : List Char) :
    List (Nat × List Char) → Option (List HeaderClause)
  | [] => some []
  | (start, word) :: further => do
    let stop := match further with
      | [] => byteLength rest
      | (next, _) :: _ => next
    let others ← clausesAt shift rest further
    if word = "extends".toList ∨ word = "implements".toList then
      let list ← cut? rest ⟨start + byteLength word, stop⟩
      let items ← split list
      some (⟨word, shift + start, items⟩ :: others)
    else some others

/-- Where keywords follow each other in a text, all clauses are extents of it. -/
theorem clausesAt_eq (shift : Nat) {rest : List Char} {found : List (Nat × List Char)}
    (hfound : ∀ entry ∈ found, entry ∈ occurrences keyword? List.length rest)
    (hapart : found.Pairwise fun a b => a.1 + byteLength a.2 ≤ b.1) :
    clausesAt shift rest found = some (Header.clausesAt shift rest found) := by
  induction found with
  | nil => rfl
  | cons entry further ih =>
      obtain ⟨start, word⟩ := entry
      obtain ⟨hhead, hlater⟩ := List.forall_mem_cons.mp hfound
      obtain ⟨hnext, hfurther⟩ := List.pairwise_cons.mp hapart
      obtain ⟨front, back, hrest, rfl⟩ := exists_parts_of_keyword hhead
      obtain ⟨list, behind, rfl, hstop, _⟩ := exists_endsAt hrest hlater hnext hfurther
      have hextent : IsExtent rest ⟨byteLength front + byteLength word,
          byteLength (front ++ word ++ list)⟩ := by
        apply @isExtent_append _ (front ++ word) list behind
        · simp [hrest]
        · simp
        · rfl
      generalize byteLength (front ++ word ++ list) = stop at hstop hextent
      rw [clausesAt_cons shift word hstop]
      have hothers := ih hlater hfurther
      rcases hstop with ⟨rfl, rfl⟩ | ⟨keyword, others, rfl⟩ <;>
        rw [clausesAt, hothers] <;>
        simp only [cut?_of_isExtent hextent, split_eq, Option.bind_eq_bind, Option.bind_some] <;>
        split <;> rfl

/-- The base clauses of a Java header. -/
def javaClauses (header : List Char) : Option (List HeaderClause) := do
  let rest ← afterParameters header
  let found ← topKeywords ['<'] ['>'] rest
  clausesAt (byteLength header - byteLength rest) rest found

theorem javaClauses_eq (header : List Char) :
    javaClauses header = some (Header.javaClauses header) := by
  simp only [javaClauses, afterParameters_eq, topKeywords_eq, Option.bind_eq_bind,
    Option.bind_some, Header.javaClauses]
  exact clausesAt_eq _ (fun entry hentry => (List.mem_filter.mp hentry).1)
    (pairwise_topKeywords ['<'] ['>'] _)

/-! ## The base list of a C# header -/

/-- The byte offset of the first `where` outside all brackets, or the end of the header. -/
def constraintsStart (header : List Char) : Option Nat := do
  let found ← topKeywords ['<', '('] ['>', ')'] header
  some (match found.find? (·.2 = "where".toList) with
    | some (offset, _) => offset
    | none => byteLength header)

theorem constraintsStart_eq (header : List Char) :
    constraintsStart header = some (Header.constraintsStart header) := by
  rw [constraintsStart, topKeywords_eq]
  rfl

/-- The base list of a C# header, if it has one. -/
def csharpBases (header : List Char) : Option (Option HeaderClause) := do
  let stop ← constraintsStart header
  let front ← cut? header ⟨0, stop⟩
  match colonFrom 0 0 front with
  | none => some none
  | some (colon, _) =>
    let list ← cut? header ⟨colon + 1, stop⟩
    let items ← split list
    some (some ⟨[':'], colon, items⟩)

theorem csharpBases_eq (header : List Char) :
    csharpBases header = some (Header.csharpBases header) := by
  obtain ⟨front, constraints, hparts, hstop⟩ := exists_parts_of_constraintsStart header
  have hfront : cut? header ⟨0, byteLength front⟩ = some front :=
    cut?_append (a := []) hparts rfl rfl
  have htake : takeBytes (byteLength front) header = front := by rw [hparts, takeBytes_append]
  simp only [csharpBases, Header.csharpBases, constraintsStart_eq, hstop, hfront, htake,
    Option.bind_eq_bind, Option.bind_some]
  cases hcolon : colonFrom 0 0 front with
  | none => rfl
  | some found =>
      obtain ⟨colon, list⟩ := found
      obtain ⟨before, after, rfl, rfl, rfl⟩ := colonFrom_eq_some hcolon
      have hmark : ':'.utf8Size = 1 := by decide
      have hlist : cut? header ⟨0 + byteLength before + 1, byteLength (before ++ ':' :: after)⟩ =
          some after := by
        refine cut?_append (a := before ++ [':']) (b := constraints) (by simp [hparts]) ?_ ?_
        · simp [hmark]
        · simp
      simp only [hlist, split_eq, Option.bind_some, List.tail_cons]

end ClassDiagram.Checked
