import ClassDiagram.Proofs.Printed.TypeList
import ClassDiagram.Proofs.Source.Apart

/-!
# The places of base clauses

In any header, with brackets that match or not, a base clause stands at its keyword, which is a
whole word outside all angle brackets behind the type parameters, and its types stand behind that
keyword and in front of the next one.
-/

namespace ClassDiagram

open Text Source

namespace Header

/-! ## Keywords outside angle brackets -/

/-- Between `front` and `back` a keyword stands behind the type parameters of a header: it is a
whole word, and as many angle brackets are closed as opened in front of it. -/
structure IsTopKeyword (parameters front word back : List Char) : Prop where
  keyword : word ∈ keywords.map String.toList
  starts : startsWord (lastOf none (parameters ++ front)) = true
  ends : endsWord back = true
  outside : nesting ['<'] ['>'] front = 0

theorem IsTopKeyword.ne_nil {parameters front word back : List Char}
    (h : IsTopKeyword parameters front word back) : word ≠ [] := by
  obtain ⟨w, hw, rfl⟩ := List.mem_map.mp h.keyword
  exact (isIdentifier_keywords w hw).ne_nil

theorem startsWord_behind {parameters front back : List Char}
    (hleading : TypeList.IsLeading parameters (front ++ back)) (hback : back ≠ []) :
    startsWord (lastOf none (parameters ++ front)) = startsWord (lastOf none front) := by
  rw [lastOf_append]
  cases front with
  | nil =>
      have hends : startsWord (lastOf none parameters) = true :=
        startsWord_lastOf rfl (hleading.apart.resolve_right hback)
      exact hends
  | cons c front => rw [lastOf_congr (List.cons_ne_nil c front) _ none]

/-- Inside a keyword no other word starts. -/
theorem startsWord_inside {place between back word : List Char}
    (hread : keyword? (between ++ back) = some word) (hne : between ≠ [])
    (hinside : between.length < word.length) :
    startsWord (lastOf none (place ++ between)) = false := by
  obtain ⟨w, hw, rfl, rest, hparts, _⟩ := keyword?_eq_some hread
  have hlast : between.getLast hne ∈ w.toList := by
    rw [List.append_eq_append_iff] at hparts
    rcases hparts with ⟨more, hword, _⟩ | ⟨more, hbetween, _⟩
    · rw [hword]
      exact List.mem_append_left _ (List.getLast_mem hne)
    · have hlength := congrArg List.length hbetween
      rw [List.length_append] at hlength
      omega
  have hword := (isIdentifier_keywords w hw).isWord _ hlast
  rw [lastOf, List.getLast?_append_of_ne_nil _ hne, List.getLast?_eq_some_getLast hne,
    Option.some_or, startsWord, Option.any_some, hword]
  rfl

/-- The keywords found at the top of what follows the type parameters are all that stand there. -/
theorem mem_topKeywords_iff {parameters rest word : List Char} {offset : Nat}
    (hleading : TypeList.IsLeading parameters rest) :
    (offset, word) ∈ topKeywords ['<'] ['>'] rest ↔
      ∃ front back, rest = front ++ (word ++ back) ∧ offset = byteLength front ∧
        IsTopKeyword parameters front word back := by
  constructor
  · intro h
    obtain ⟨hmem, htop⟩ := List.mem_filter.mp h
    obtain ⟨front, back, ⟨rfl, hback⟩, rfl, hstart, hread⟩ := mem_occurrencesFrom hmem
    obtain ⟨w, hw, rfl, after, rfl, hends⟩ := keyword?_eq_some hread
    have houtside := of_decide_eq_true htop
    rw [Nat.zero_add, takeBytes_append] at houtside
    refine ⟨front, after, rfl, Nat.zero_add _, List.mem_map_of_mem hw, ?_, hends, houtside⟩
    rwa [startsWord_behind hleading hback]
  · rintro ⟨front, back, rfl, rfl, hkeyword, hstart, hends, houtside⟩
    obtain ⟨w, hw, rfl⟩ := List.mem_map.mp hkeyword
    have hne : w.toList ++ back ≠ [] := by simp [(isIdentifier_keywords w hw).ne_nil]
    rw [startsWord_behind hleading hne] at hstart
    have hread := keyword?_append hw (endsWord_iff.mp hends)
    refine List.mem_filter.mpr ⟨?_, decide_eq_true (by rwa [takeBytes_append])⟩
    have hfound := @foundOrInside_occurrencesFrom _ keyword? List.length 0 none 0 _ _ _ _
      ⟨rfl, hne⟩ hstart hread
    rcases hfound.resolve_left (Nat.not_lt_zero _) with
      hmem | ⟨place, between, earlier, rfl, hbetween, _, hearlier, hinside⟩
    · rwa [Nat.zero_add] at hmem
    · rw [startsWord_inside hearlier hbetween hinside] at hstart
      exact absurd hstart Bool.false_ne_true

/-! ## Places of clauses -/

/-- A clause stands behind the type parameters of a header. Its types, without white space around
them, stand in the list behind its keyword one after the other, and the next keyword outside all
angle brackets stands behind that list. -/
inductive StandsIn (parameters : List Char) : (rest : List Char) → HeaderClause → Prop
  | intro {before keyword list behind : List Char} {items : List (List Char)}
      (names : keyword ∈ ["extends".toList, "implements".toList])
      (top : IsTopKeyword parameters before keyword (list ++ behind))
      (trimmed : ∀ item ∈ items, trim item = item ∧ item ≠ []) (inOrder : InOrder items list)
      (next : ∀ front word back, list ++ behind = front ++ (word ++ back) →
        IsTopKeyword parameters (before ++ keyword ++ front) word back → list <+: front) :
      StandsIn parameters (before ++ (keyword ++ (list ++ behind)))
        ⟨keyword, byteLength (parameters ++ before), items⟩

/-- No keyword stands at the top of a list in front of the keyword that ends it. -/
theorem prefix_of_isTopKeyword {parameters before word list behind front following back : List Char}
    {earlier further : List (Nat × List Char)}
    (hleading : TypeList.IsLeading parameters (before ++ (word ++ (list ++ behind))))
    (hall : topKeywords ['<'] ['>'] (before ++ (word ++ (list ++ behind))) =
      earlier ++ (byteLength before, word) :: further)
    (hbehind : ∀ entry ∈ further, byteLength (before ++ word ++ list) ≤ entry.1)
    (hne : word ≠ []) (hparts : list ++ behind = front ++ (following ++ back))
    (h : IsTopKeyword parameters (before ++ word ++ front) following back) : list <+: front := by
  have hplace : before ++ (word ++ (list ++ behind)) =
      (before ++ word ++ front) ++ (following ++ back) := by simp [hparts]
  have hmem := (mem_topKeywords_iff hleading).mpr ⟨_, back, hplace, rfl, h⟩
  have hapart := pairwise_topKeywords ['<'] ['>'] (before ++ (word ++ (list ++ behind)))
  have hword := byteLength_pos hne
  rw [hall] at hmem hapart
  simp only [byteLength_append] at hmem hbehind
  rcases List.mem_append.mp hmem with hearlier | hlater
  · have hle := (List.pairwise_append.mp hapart).2.2 _ hearlier _ List.mem_cons_self
    dsimp only at hle
    omega
  · rcases List.mem_cons.mp hlater with hsame | hfurther
    · obtain ⟨hoffset, _⟩ := Prod.mk.inj hsame
      omega
    · have hle := hbehind _ hfurther
      dsimp only at hle
      obtain ⟨between, rfl, _⟩ := exists_between_of_byteLength_le hparts (by omega)
      exact List.prefix_append list between

theorem standsIn_of_mem_clausesAt {parameters rest : List Char} {found : List (Nat × List Char)}
    (hleading : TypeList.IsLeading parameters rest)
    (hfound : found <:+ topKeywords ['<'] ['>'] rest) {clause : HeaderClause}
    (h : clause ∈ clausesAt (byteLength parameters) rest found) :
    StandsIn parameters rest clause := by
  induction found with
  | nil => exact absurd h List.not_mem_nil
  | cons entry further ih =>
      obtain ⟨start, word⟩ := entry
      have hothers := @ih ((List.suffix_cons _ further).trans hfound)
      have hapart := (pairwise_topKeywords ['<'] ['>'] rest).sublist hfound.sublist
      have hlater : ∀ entry ∈ further, entry ∈ occurrences keyword? List.length rest :=
        fun entry hentry =>
          (List.mem_filter.mp (hfound.subset (List.mem_cons_of_mem _ hentry))).1
      obtain ⟨before, after, rfl, rfl, htop⟩ :=
        (mem_topKeywords_iff hleading).mp (hfound.subset List.mem_cons_self)
      obtain ⟨list, behind, rfl, hstop, hbehind⟩ := exists_endsAt rfl hlater
        (List.pairwise_cons.mp hapart).1 (List.pairwise_cons.mp hapart).2
      rw [clausesAt_cons (byteLength parameters) word hstop] at h
      split at h
      next hnames =>
        rcases List.mem_cons.mp h with rfl | h
        · have hlist : slice (before ++ (word ++ (list ++ behind)))
              ⟨byteLength before + byteLength word, byteLength (before ++ word ++ list)⟩ =
              list := by
            rw [← List.append_assoc]
            exact slice_append_of_eq (byteLength_append _ _).symm (byteLength_append _ _)
          obtain ⟨earlier, hall⟩ := hfound
          rw [hlist, ← byteLength_append]
          refine .intro (by simpa using hnames) htop (fun _ => TypeList.trim_of_mem_split)
            (TypeList.inOrder_split list) fun front following back hparts hkeyword => ?_
          exact prefix_of_isTopKeyword hleading hall.symm hbehind htop.ne_nil hparts hkeyword
        · exact hothers h
      next => exact hothers h

theorem exists_mem_clausesAt {shift start : Nat} {rest word : List Char}
    {found : List (Nat × List Char)} (h : (start, word) ∈ found)
    (hnames : word = "extends".toList ∨ word = "implements".toList) :
    ∃ clause ∈ clausesAt shift rest found, clause.offset = shift + start := by
  induction found with
  | nil => exact absurd h List.not_mem_nil
  | cons entry further ih =>
      simp only [clausesAt, Bool.or_eq_true, decide_eq_true_eq]
      rcases List.mem_cons.mp h with rfl | h
      · rw [if_pos hnames]
        exact ⟨_, List.mem_cons_self, rfl⟩
      · obtain ⟨clause, hclause, hoffset⟩ := ih h
        split
        next => exact ⟨clause, List.mem_cons_of_mem _ hclause, hoffset⟩
        next => exact ⟨clause, hclause, hoffset⟩

/-- The base clauses of a header with the type parameters that it starts with. -/
structure AreClausesOf (clauses : List HeaderClause) (header parameters rest : List Char) :
    Prop where
  parts : header = parameters ++ rest
  leading : TypeList.IsLeading parameters rest
  standIn : ∀ clause ∈ clauses, StandsIn parameters rest clause
  complete : ∀ front word back, rest = front ++ (word ++ back) →
    IsTopKeyword parameters front word back → word ∈ ["extends".toList, "implements".toList] →
      ∃ clause ∈ clauses, clause.offset = byteLength (parameters ++ front)
  inOrder : AreInOrder clauses header

/-- In any header the clauses stand one behind the other, each at its keyword, and so do all the
types that they list. -/
theorem exists_areClausesOf_javaClauses (header : List Char) :
    ∃ parameters rest, AreClausesOf (javaClauses header) header parameters rest := by
  obtain ⟨parameters, hparts, hleading⟩ := TypeList.exists_isLeading header
  have hclauses := javaClauses_eq hparts
  refine ⟨parameters, TypeList.afterParameters header, ?_⟩
  constructor
  case parts => exact hparts
  case leading => exact hleading
  case standIn =>
    rw [hclauses]
    exact fun clause => standsIn_of_mem_clausesAt hleading (List.suffix_refl _)
  case complete =>
    intro front word back hrest hkeyword hnames
    rw [hclauses, byteLength_append]
    exact exists_mem_clausesAt ((mem_topKeywords_iff hleading).mpr
      ⟨front, back, hrest, rfl, hkeyword⟩) (by simpa using hnames)
  case inOrder => exact areInOrder_javaClauses header

/-- A closing bracket too many hides a keyword until an opening one makes up for it. -/
example : (javaClauses "<T>> extends A< implements B".toList).map (·.offset) = [16] := by
  decide +kernel

end Header

end ClassDiagram
