import ClassDiagram.Proofs.Header.Keywords
import ClassDiagram.Proofs.Header.TypeList
import ClassDiagram.Proofs.Text.Renaming
import Mathlib.Data.List.Forall2

/-!
# Renamed headers

Which types a header lists is seen from its keywords, brackets, commas and white space. A renaming
leaves all of them but the keywords, and so it goes through the clauses as long as no other word
becomes a keyword, and no keyword another word. In a Java header `where` is an ordinary word; it
ends a clause all the same.
-/

namespace ClassDiagram

open Text Source

namespace TypeList

variable (σ : Renaming)

/-! ## Lists of types -/

theorem not_mem_marks_of_isRun {w : List Char} (hw : IsRun w) :
    ∀ c ∈ w, c ∉ ['<', '>', '(', ')', ','] :=
  fun c hc => not_mem_of_apply (p := isWord) (by decide) (hw.isWord c hc)

/-- A renamed list is divided where the list is. -/
theorem divideFrom_text (depth : Nat) (current : List Char) {cs : List Char}
    (h : IsSeam current.reverse cs) :
    divideFrom depth (σ.text current.reverse).reverse (σ.text cs) =
      (divideFrom depth current cs).map σ.text := by
  induction cs using runsInduction generalizing depth current with
  | nil => simp [divideFrom]
  | mark c cs hc ih =>
      have hon : ∀ next, divideFrom next (c :: (σ.text current.reverse).reverse) (σ.text cs) =
          (divideFrom next (c :: current) cs).map σ.text := by
        intro next
        have hnext := ih next (c :: current)
          (by rw [List.reverse_cons]; exact isSeam_concat_mark _ hc cs)
        rwa [List.reverse_cons, σ.text_concat_mark _ hc, List.reverse_append] at hnext
      have hfirst : divideFrom 0 [] (σ.text cs) = (divideFrom 0 [] cs).map σ.text :=
        ih 0 [] (isSeam_nil cs)
      rw [σ.text_mark hc, divideFrom, divideFrom]
      split
      next => exact hon _
      next =>
        split
        next => exact hon _
        next =>
          split
          next => rw [hfirst, List.reverse_reverse, List.map_cons]
          next => exact hon _
  | word w cs hw hcs ih =>
      have hnext := ih depth (w.reverse ++ current)
        (by rw [List.reverse_append, List.reverse_reverse]; exact .inr hcs)
      rw [List.reverse_append, List.reverse_reverse, σ.text_append h.of_append_right,
        σ.text_word hw, List.reverse_append] at hnext
      rw [σ.text_word_append hw hcs, divideFrom_append_of_forall (not_mem_marks_of_isRun hw),
        divideFrom_append_of_forall (not_mem_marks_of_isRun (σ.isRun hw)), hnext]

/-- The entries of a renamed list are the renamed entries. -/
theorem split_text (list : List Char) : split (σ.text list) = (split list).map σ.text := by
  have hdivide : divideFrom 0 [] (σ.text list) = (divideFrom 0 [] list).map σ.text :=
    divideFrom_text σ 0 [] (isSeam_nil list)
  have htrim : trim ∘ σ.text = σ.text ∘ trim := funext fun cs => (σ.text_trim cs).symm
  have hempty : (fun cs : List Char => !cs.isEmpty) ∘ σ.text = fun cs => !cs.isEmpty := by
    funext cs
    rw [Function.comp_apply, Bool.eq_iff_iff]
    simp [σ.text_eq_nil_iff]
  rw [split, split, hdivide, List.map_map, htrim, ← List.map_map, List.filter_map, hempty]

/-! ## Type parameters -/

theorem dropBytes_behind (a b : List Char) :
    dropBytes (0 + byteLength a + 1) (a ++ '>' :: b) = b := by
  have hsize : 0 + byteLength a + 1 = byteLength (a ++ ['>']) := by
    rw [byteLength_append, Nat.zero_add]
    rfl
  have hjoin : a ++ '>' :: b = (a ++ ['>']) ++ b := by simp
  rw [hsize, hjoin, dropBytes_append]

/-- Type parameters, if a header starts with any, end at a seam of it. -/
theorem exists_afterParameters (header : List Char) :
    ∃ front, header = front ++ afterParameters header ∧ IsSeam front (afterParameters header) := by
  obtain ⟨front, hparts, hleading⟩ := exists_isLeading header
  exact ⟨front, hparts, hleading.apart.imp_right fun hnil => by simp [hnil]⟩

/-- Type parameters end at the same place in a renamed header. -/
theorem afterParameters_text (header : List Char) :
    afterParameters (σ.text header) = σ.text (afterParameters header) := by
  have hless : isWord '<' = false := by decide
  have hgreater : isWord '>' = false := by decide
  by_cases hhead : ∀ c ∈ (trimStart header).head?, decide (c = '<') = false
  · have hhead' := (σ.forall_head_text_iff (isBlind_mark hless)).mpr hhead
    rw [σ.text_trimStart] at hhead'
    rw [afterParameters_of_head fun c hc => of_decide_eq_false (hhead c hc), σ.text_trimStart,
      afterParameters_of_head fun c hc => of_decide_eq_false (hhead' c hc)]
  · obtain ⟨cs, hstart⟩ : ∃ cs, trimStart header = '<' :: cs := by
      cases hstart : trimStart header with
      | nil => simp [hstart] at hhead
      | cons c cs => exact ⟨cs, by simpa [hstart] using hhead⟩
    have hplace := σ.closingFrom_text hless hgreater 0 0 0 ('<' :: cs)
    rw [afterParameters, afterParameters, ← σ.text_trimStart, hstart]
    simp only [σ.text_mark hless, partner?] at hplace ⊢
    generalize closingFrom Char.utf8Size '<' '>' 0 0 ('<' :: cs) = n at hplace ⊢
    generalize closingFrom Char.utf8Size '<' '>' 0 0 ('<' :: σ.text cs) = m at hplace ⊢
    cases hplace with
    | none => rfl
    | some a b hparts =>
        dsimp only
        rw [← σ.text_mark hless, hparts, dropBytes_behind, σ.text_append (isSeam_mark a hgreater b),
          σ.text_mark hgreater, dropBytes_behind]

end TypeList

namespace Header

variable {σ : Renaming} {opening closing front : List Char}

/-! ## Keywords -/

theorem topFrom_mark {c : Char} (hc : isWord c = false) (cs : List Char) :
    topFrom opening closing front (c :: cs) = topFrom opening closing (front ++ [c]) cs := by
  apply topFrom_nested (a := [c])
  apply isNested_of_quiet
  exact isQuiet_of_not_isWord opensWith_keyword? isIdentifier_keywords (by simpa using hc) _ _

theorem startsWord_of_isSeam {w cs : List Char} (hw : IsRun w) (h : IsSeam front (w ++ cs)) :
    startsWord (lastOf none front) = true := by
  rcases h with hlast | hhead
  · exact startsWord_lastOf rfl hlast
  · obtain ⟨c, hc, hword⟩ := hw.exists_head
    rw [hhead c (by rw [List.head?_append, hc]; rfl)] at hword
    exact absurd hword Bool.false_ne_true

section

variable {w cs : List Char} (hcs : ∀ c ∈ cs.head?, isWord c = false)

include hcs

theorem keyword?_eq_none (hw : IsRun w) (hnot : ∀ k ∈ keywords, w ≠ k.toList) :
    keyword? (w ++ cs) = none := by
  cases hread : keyword? (w ++ cs) with
  | none => rfl
  | some word =>
      obtain ⟨k, hk, _, rest, hparts, hends⟩ := keyword?_eq_some hread
      have hword := (isIdentifier_keywords k hk).isWord
      exact absurd (eq_of_isWord_append hw.isWord hword hcs (endsWord_iff.mp hends) hparts).1
        (hnot k hk)

/-- A word that is no keyword adds none. -/
theorem topFrom_word (hw : IsRun w) (hnot : ∀ k ∈ keywords, w ≠ k.toList) :
    topFrom opening closing front (w ++ cs) = topFrom opening closing (front ++ w) cs := by
  apply topFrom_nested
  apply isNested_of_quiet
  exact isQuiet_of_isWord hw.isWord (keyword?_eq_none hcs hw hnot) _

/-- A keyword inside brackets, or behind too many that close, is no top keyword. -/
theorem topFrom_nestedKeyword (hfront : nesting opening closing front ≠ 0)
    (hstart : startsWord (lastOf none front) = true) {k : String} (hk : k ∈ keywords) :
    topFrom opening closing front (k.toList ++ cs) =
      topFrom opening closing (front ++ k.toList) cs := by
  have hne := (isIdentifier_keywords k hk).ne_nil
  rw [topFrom, occurrencesFrom_phrase hstart hne (keyword?_append hk hcs) rfl,
    List.filter_cons_of_neg (by simp [hfront]), topFrom, lastOf_append, byteLength_append,
    List.append_assoc]

end

/-! ## Keywords of renamed headers -/

/-- A renaming neither makes a word a keyword nor a keyword another word. -/
def KeepsKeywords (σ : Renaming) (w : List Char) : Prop :=
  ∀ k ∈ keywords, σ.word w = k.toList ↔ w = k.toList

/-- A keyword of a text with its byte offset, and the same keyword in the renamed text. -/
inductive SameKeyword (σ : Renaming) (cs : List Char) : Nat × List Char → Nat × List Char → Prop
  | intro {before word after : List Char} (hparts : cs = before ++ (word ++ after))
      (hword : IsRun word) (hkept : σ.word word = word) (hbefore : IsSeam before (word ++ after))
      (hafter : ∀ c ∈ after.head?, isWord c = false) :
      SameKeyword σ cs (byteLength before, word) (byteLength (σ.text before), word)

theorem isRun_keyword {k : String} (hk : k ∈ keywords) : IsRun k.toList :=
  ⟨(isIdentifier_keywords k hk).ne_nil, (isIdentifier_keywords k hk).isWord⟩

/-- The top keywords of a renamed header are those of the header, at the same places. -/
theorem forall₂_topFrom (hmarks : ∀ c ∈ opening ++ closing, isWord c = false)
    (front : List Char) {rest : List Char} (hseam : IsSeam front rest)
    (hkeeps : ∀ w ∈ runs rest, IsRun w → KeepsKeywords σ w) :
    List.Forall₂ (SameKeyword σ (front ++ rest)) (topFrom opening closing front rest)
      (topFrom opening closing (σ.text front) (σ.text rest)) := by
  induction rest using runsInduction generalizing front with
  | nil => exact .nil
  | mark c cs hc ih =>
      rw [runs_mark hc] at hkeeps
      have hrest := ih (front ++ [c]) (isSeam_concat_mark front hc cs)
        fun w hw => hkeeps w (List.mem_cons_of_mem _ hw)
      rwa [σ.text_concat_mark front hc, ← topFrom_mark hc, ← topFrom_mark hc, ← σ.text_mark hc,
        List.append_assoc, List.singleton_append] at hrest
  | word w cs hw hcs ih =>
      rw [runs_word_append hw hcs] at hkeeps
      have hkept := hkeeps w List.mem_cons_self hw
      have htext : σ.text (front ++ w) = σ.text front ++ σ.word w := by
        rw [σ.text_append hseam.of_append_right, σ.text_word hw]
      have hcs' := (σ.forall_head_text_iff isBlind_isWord).mpr hcs
      have hrest := ih (front ++ w) (.inr hcs)
        fun v hv => hkeeps v (List.mem_cons_of_mem _ hv)
      rw [htext, List.append_assoc] at hrest
      rw [σ.text_word_append hw hcs]
      by_cases hkeyword : ∃ k ∈ keywords, w = k.toList
      · obtain ⟨k, hk, rfl⟩ := hkeyword
        have hstart := startsWord_of_isSeam hw hseam
        have hseam' := σ.isSeam_text hseam
        rw [σ.text_word_append hw hcs] at hseam'
        have hstart' := startsWord_of_isSeam (σ.isRun hw) hseam'
        have hsame : σ.word k.toList = k.toList := (hkept k hk).mpr rfl
        rw [hsame] at hrest ⊢
        by_cases hnesting : nesting opening closing front = 0
        · rw [topFrom_keyword hnesting hstart hk hcs,
            topFrom_keyword ((σ.nesting_text hmarks front).trans hnesting) hstart' hk hcs']
          exact .cons (.intro rfl hw hsame hseam hcs) hrest
        · rw [topFrom_nestedKeyword hcs hnesting hstart hk,
            topFrom_nestedKeyword hcs' (by rwa [σ.nesting_text hmarks]) hstart' hk]
          exact hrest
      · have hnot : ∀ k ∈ keywords, w ≠ k.toList := fun k hk heq => hkeyword ⟨k, hk, heq⟩
        have hnot' : ∀ k ∈ keywords, σ.word w ≠ k.toList :=
          fun k hk heq => hnot k hk ((hkept k hk).mp heq)
        rwa [topFrom_word hcs hw hnot, topFrom_word hcs' (σ.isRun hw) hnot']

/-! ## Clauses of renamed headers -/

/-- What is listed behind a keyword is renamed with the header. -/
theorem slice_text {before word : List Char} (hword : IsRun word) (hkept : σ.word word = word)
    (list behind : List Char) (hbefore : IsSeam before (word ++ (list ++ behind)))
    (hafter : ∀ c ∈ (list ++ behind).head?, isWord c = false) (hbehind : IsSeam list behind) :
    slice (σ.text (before ++ (word ++ (list ++ behind))))
        ⟨byteLength (σ.text before) + byteLength word,
          byteLength (σ.text (before ++ (word ++ list)))⟩ =
      σ.text (slice (before ++ (word ++ (list ++ behind)))
        ⟨byteLength before + byteLength word, byteLength (before ++ (word ++ list))⟩) := by
  have hlist : IsSeam word list := IsSeam.of_append_right (.inr hafter)
  have hfront : IsSeam before (word ++ list) :=
    IsSeam.of_append_right (c := behind) (by rwa [List.append_assoc])
  have hslice : ∀ before list behind : List Char, slice (before ++ (word ++ (list ++ behind)))
      ⟨byteLength before + byteLength word, byteLength (before ++ (word ++ list))⟩ = list := by
    intro before list behind
    rw [← List.append_assoc]
    apply slice_append_of_eq
    · exact (byteLength_append _ _).symm
    · simp only [byteLength_append, Nat.add_assoc]
  rw [hslice, σ.text_append hbefore, σ.text_append (.inr hafter), σ.text_append hbehind,
    σ.text_word hword, hkept, σ.text_append hfront, σ.text_append hlist, σ.text_word hword, hkept,
    hslice]

/-- The list behind a keyword ends at the same place in a renamed header. -/
theorem exists_endsAt_text {rest : List Char} {entry entry' : Nat × List Char}
    {further further' : List (Nat × List Char)} (hentry : SameKeyword σ rest entry entry')
    (hfurther : List.Forall₂ (SameKeyword σ rest) further further')
    (hnext : ∀ next ∈ further, entry.1 + byteLength entry.2 ≤ next.1) :
    ∃ stop stop', EndsAt rest stop further ∧ EndsAt (σ.text rest) stop' further' ∧
      slice (σ.text rest) ⟨entry'.1 + byteLength entry'.2, stop'⟩ =
        σ.text (slice rest ⟨entry.1 + byteLength entry.2, stop⟩) := by
  obtain @⟨before, word, after, hparts, hword, hkept, hbefore, hafter⟩ := hentry
  cases hfurther with
  | nil =>
      have hlist := slice_text hword hkept after [] (by rwa [List.append_nil])
        (by rwa [List.append_nil]) (.inr (by simp))
      rw [List.append_nil, ← hparts] at hlist
      exact ⟨_, _, .inl ⟨rfl, rfl⟩, .inl ⟨rfl, rfl⟩, hlist⟩
  | cons hhead hlater =>
      obtain @⟨front, keyword, behind, hplace, _, _, hfront, _⟩ := hhead
      have hplaces : (before ++ word) ++ after = front ++ (keyword ++ behind) := by
        rw [List.append_assoc, ← hparts, hplace]
      obtain ⟨list, rfl, rfl⟩ := exists_between_of_byteLength_le hplaces
        (by rw [byteLength_append]; exact hnext _ List.mem_cons_self)
      have hlist := slice_text hword hkept _ _ hbefore hafter hfront.of_append_left
      rw [← hparts] at hlist
      refine ⟨_, _, .inr ⟨_, _, rfl⟩, .inr ⟨_, _, rfl⟩, ?_⟩
      rwa [List.append_assoc]

/-- The clauses of a renamed text list the renamed types under the same keywords. -/
theorem clausesAt_text {rest : List Char} {found found' : List (Nat × List Char)}
    (h : List.Forall₂ (SameKeyword σ rest) found found')
    (hapart : found.Pairwise fun a b => a.1 + byteLength a.2 ≤ b.1) (shift shift' : Nat) :
    (clausesAt shift' (σ.text rest) found').map (fun clause => (clause.keyword, clause.items)) =
      (clausesAt shift rest found).map fun clause =>
        (clause.keyword, clause.items.map σ.text) := by
  induction h with
  | nil => rfl
  | cons hentry hfurther ih =>
      obtain ⟨hnext, hlater⟩ := List.pairwise_cons.mp hapart
      obtain ⟨stop, stop', hstop, hstop', hlist⟩ := exists_endsAt_text hentry hfurther hnext
      obtain @⟨before, word, after, _⟩ := hentry
      rw [clausesAt_cons shift word hstop, clausesAt_cons shift' word hstop']
      split
      next => rw [List.map_cons, List.map_cons, ih hlater, hlist, TypeList.split_text]
      next => exact ih hlater

/-- The clauses of the renamed header are the renamed clauses of the header: they have the same
keywords, and each type they list is renamed. -/
def KeepsClauses (σ : Renaming) (header : List Char) : Prop :=
  (javaClauses (σ.text header)).map (fun clause => (clause.keyword, clause.items)) =
    (javaClauses header).map fun clause => (clause.keyword, clause.items.map σ.text)

instance (σ : Renaming) (header : List Char) : Decidable (KeepsClauses σ header) :=
  inferInstanceAs (Decidable (_ = _))

theorem keepsClauses {header : List Char}
    (hkeeps : ∀ w ∈ runs header, IsRun w → KeepsKeywords σ w) : KeepsClauses σ header := by
  obtain ⟨front, hparts, hseam⟩ := TypeList.exists_afterParameters header
  have hrest : ∀ w ∈ runs (TypeList.afterParameters header), IsRun w → KeepsKeywords σ w := by
    intro w hw
    apply hkeeps w
    rw [hparts, runs_append hseam]
    exact List.mem_append_right _ hw
  have hmarks : ∀ c ∈ ['<'] ++ ['>'], isWord c = false := by decide
  have hfound := forall₂_topFrom hmarks [] (isSeam_nil _) hrest
  rw [KeepsClauses, javaClauses, javaClauses, TypeList.afterParameters_text]
  exact clausesAt_text hfound (pairwise_topKeywords _ _ _) _ _

/-! ## Java -/

/-- The words that can stand between the types in a Java header and are no names. -/
def javaKeywords : List String := ["extends", "implements", "permits"]

theorem mem_keywords_iff {k : String} : k ∈ keywords ↔ k ∈ javaKeywords ∨ k = "where" := by
  simp [keywords, javaKeywords, or_assoc]

theorem where_ne : ∀ k ∈ javaKeywords, "where".toList ≠ k.toList := by decide

theorem keepsKeywords (hfixed : ∀ k ∈ javaKeywords, σ.word k.toList = k.toList) {w : List Char}
    (hw : IsRun w) (hwhere : σ.word w = "where".toList ↔ w = "where".toList) :
    KeepsKeywords σ w := by
  intro k hk
  rcases mem_keywords_iff.mp hk with hjava | rfl
  · constructor
    · intro heq
      exact σ.injective hw (isRun_keyword hk) (heq.trans (hfixed k hjava).symm)
    · rintro rfl
      exact hfixed k hjava
  · exact hwhere

/-- A header with one base type. -/
def extending (type : List Char) : List Char := ' ' :: ("extends".toList ++ ' ' :: type)

theorem text_extending (σ : Renaming) (hextends : σ.word "extends".toList = "extends".toList)
    {w : List Char} (hw : IsRun w) : σ.text (extending w) = extending (σ.word w) := by
  have hblank : isWord ' ' = false := by decide
  rw [extending, σ.text_mark hblank, σ.text_word_append (by decide)
    (forall_mem_head_cons hblank w), σ.text_mark hblank, σ.text_word hw, hextends, extending]

theorem runs_extending {w : List Char} (hw : IsRun w) :
    runs (extending w) = [[' '], "extends".toList, [' '], w] := by
  have hblank : isWord ' ' = false := by decide
  rw [extending, runs_mark hblank, runs_word_append (by decide) (forall_mem_head_cons hblank w),
    runs_mark hblank, runs_word hw]

/-- A word behind `extends` is a listed type unless it is a keyword. -/
theorem lengths_extending {w : List Char} (hw : IsRun w) (hnot : ∀ k ∈ keywords, w ≠ k.toList) :
    (javaClauses (extending w)).map (fun clause => (clause.keyword, clause.items.length)) =
      [("extends".toList, 1)] := by
  -- A renaming makes the word a fixed one, for which the clauses can be computed.
  let σ := Renaming.swap w "T".toList hw (by decide)
  have hword : σ.word w = "T".toList := Equiv.swap_apply_left w _
  have hextends : σ.word "extends".toList = "extends".toList :=
    Equiv.swap_apply_of_ne_of_ne (hnot "extends" (by decide)).symm (by decide)
  have hkeeps : KeepsClauses σ (extending w) := by
    apply keepsClauses
    intro v hv hrun k hk
    rw [runs_extending hw] at hv
    have hblank : v ≠ [' '] := by
      rintro rfl
      exact absurd hrun (by decide)
    obtain rfl | rfl : v = "extends".toList ∨ v = w := by simpa [hblank] using hv
    · rw [hextends]
    · rw [hword]
      exact iff_of_false (by revert k; decide) (hnot k hk)
  rw [KeepsClauses, text_extending σ hextends hw, hword] at hkeeps
  have hlengths := congrArg (List.map fun entry => (entry.1, entry.2.length)) hkeeps
  simp only [List.map_map, Function.comp_def, List.length_map] at hlengths
  rw [← hlengths]
  decide +kernel

/-- A Java header has the renamed clauses when its types are renamed, as long as no other word
becomes `where` or was it. This holds for all headers exactly if the renaming leaves `where`: the
word ends a clause, though it is no keyword of Java. -/
theorem javaClauses_text_iff (σ : Renaming)
    (hfixed : ∀ k ∈ javaKeywords, σ.word k.toList = k.toList) :
    (∀ header, (∀ w ∈ runs header, IsRun w →
      (σ.word w = "where".toList ↔ w = "where".toList)) → KeepsClauses σ header) ∧
    ((∀ header, KeepsClauses σ header) ↔ σ.word "where".toList = "where".toList) := by
  have hkeep : ∀ header, (∀ w ∈ runs header, IsRun w →
      (σ.word w = "where".toList ↔ w = "where".toList)) → KeepsClauses σ header :=
    fun header hwhere => keepsClauses fun w hmem hw => keepsKeywords hfixed hw (hwhere w hmem hw)
  have hrun : IsRun "where".toList := by decide
  refine ⟨hkeep, fun hall => ?_, fun hwhere header => hkeep header fun w _ hw => ?_⟩
  · by_contra hmoved
    have hnot : ∀ k ∈ keywords, σ.word "where".toList ≠ k.toList := by
      intro k hk heq
      rcases mem_keywords_iff.mp hk with hjava | rfl
      · have hsame := σ.injective hrun (isRun_keyword hk) (heq.trans (hfixed k hjava).symm)
        exact where_ne k hjava hsame
      · exact hmoved heq
    have hkeeps := hall (extending "where".toList)
    rw [KeepsClauses, text_extending σ (hfixed "extends" (by decide)) hrun] at hkeeps
    have hlengths := congrArg (List.map fun entry => (entry.1, entry.2.length)) hkeeps
    simp only [List.map_map, Function.comp_def, List.length_map] at hlengths
    rw [lengths_extending (σ.isRun hrun) hnot] at hlengths
    exact absurd hlengths (by decide +kernel)
  · constructor
    · intro heq
      exact σ.injective hw hrun (heq.trans hwhere.symm)
    · rintro rfl
      exact hwhere

/-- Two names exchanged, one of which is a type, an argument and the last part of a qualified name.
-/
theorem javaClauses_text_iff_exchanged :
    let σ := Renaming.swap "Base".toList "Line".toList (by decide) (by decide)
    let header := "<T extends Base> extends Base<Line, T> implements a.Base, Named permits C".toList
    (∀ k ∈ javaKeywords, σ.word k.toList = k.toList) ∧
      σ.word "where".toList = "where".toList ∧ (∀ header, KeepsClauses σ header) ∧
      (∀ w ∈ runs header, IsRun w → (σ.word w = "where".toList ↔ w = "where".toList)) ∧
      (javaClauses header).map (fun clause => clause.items.map σ.text) =
        [["Line<Base, T>".toList], ["a.Line".toList, "Named".toList]] ∧
      KeepsClauses σ header := by
  intro σ header
  have hfixed : ∀ k ∈ javaKeywords, σ.word k.toList = k.toList := by decide +kernel
  have hwhere : σ.word "where".toList = "where".toList := by decide +kernel
  have hruns : ∀ w ∈ runs header, IsRun w →
      (σ.word w = "where".toList ↔ w = "where".toList) := by
    decide +kernel
  obtain ⟨hkeep, hall⟩ := javaClauses_text_iff σ hfixed
  refine ⟨hfixed, hwhere, hall.mpr hwhere, hruns, ?_, hkeep header hruns⟩
  decide +kernel

/-- A part of a package that is called `where` ends the clause it stands in. -/
theorem javaClauses_text_packageWhere :
    let σ := Renaming.swap "where".toList "ware".toList (by decide) (by decide)
    let header := " extends a.where.B implements C".toList
    (∀ k ∈ javaKeywords, σ.word k.toList = k.toList) ∧
      (javaClauses header).map (fun clause => clause.items.map σ.text) =
        [["a.".toList], ["C".toList]] ∧
      (javaClauses (σ.text header)).map (·.items) = [["a.ware.B".toList], ["C".toList]] ∧
      ¬KeepsClauses σ header := by
  decide +kernel

end Header

end ClassDiagram
