import ClassDiagram.Proofs.Source.Occurrence
import ClassDiagram.Proofs.Source.Reading

/-!
# Whole words

Whatever is recognized in a text starts with a keyword that stands there as a whole word. A part
of a text in which no such keyword stands is quiet.
-/

namespace ClassDiagram.Source

open Text

/-- Whether one of `words` stands at the head of a text and is not continued. -/
def startsWithWord (words : List String) (cs : List Char) : Bool :=
  words.any fun w => (after? w.toList cs).any endsWord

/-- Whether one of `words` stands in a text that comes after `before`, as a whole word. -/
def mentions (words : List String) (before : Option Char) : List Char → Bool
  | [] => false
  | c :: cs =>
    startsWord before && startsWithWord words (c :: cs) || mentions words (some c) cs

theorem startsWithWord_iff {words : List String} {cs : List Char} :
    startsWithWord words cs = true ↔
      ∃ w ∈ words, ∃ rest, cs = w.toList ++ rest ∧ endsWord rest = true := by
  simp only [startsWithWord, List.any_eq_true, Option.any_eq_true_iff_get, Option.isSome_iff_exists]
  constructor
  · rintro ⟨w, hw, ⟨rest, hrest⟩, hends⟩
    refine ⟨w, hw, rest, after?_eq_some_iff.mp hrest, ?_⟩
    simpa [hrest] using hends
  · rintro ⟨w, hw, rest, hrest, hends⟩
    have hafter := after?_eq_some_iff.mpr hrest
    exact ⟨w, hw, ⟨rest, hafter⟩, by simpa [hafter] using hends⟩

/-- No word stands at any place of a text that mentions none. -/
theorem mentions_eq_false {words : List String} {before : Option Char} {cs : List Char}
    (h : mentions words before cs = false) {front back : List Char} (hplace : IsPlace cs front back)
    (hstart : startsWord (lastOf before front) = true) : startsWithWord words back = false := by
  induction cs generalizing before front with
  | nil => exact absurd hplace isPlace_nil
  | cons c cs ih =>
      obtain ⟨hparts, hne⟩ := hplace
      rw [mentions, Bool.or_eq_false_iff] at h
      cases front with
      | nil =>
          rw [lastOf_nil] at hstart
          rw [List.nil_append] at hparts
          rw [hstart, Bool.true_and] at h
          rw [← hparts]
          exact h.1
      | cons d front =>
          obtain ⟨rfl, rfl⟩ := List.cons.inj hparts
          exact ih h.2 ⟨rfl, hne⟩ (by simpa using hstart)

/-- Of the text before, only its last character matters, and only whether it belongs to a word. -/
theorem mentions_congr {words : List String} {before before' : Option Char}
    (h : startsWord before = startsWord before') (cs : List Char) :
    mentions words before cs = mentions words before' cs := by
  cases cs with
  | nil => rfl
  | cons c cs => rw [mentions, mentions, h]

theorem startsWord_of_not_isWord {c : Char} (h : isWord c = false) : startsWord (some c) = true := by
  simp [startsWord, h]

theorem startsWord_lastOf {before : Option Char} (hbefore : startsWord before = true)
    {cs : List Char} (h : ∀ c ∈ cs.getLast?, isWord c = false) :
    startsWord (lastOf before cs) = true := by
  cases hlast : cs.getLast? with
  | none => simpa [lastOf, hlast] using hbefore
  | some c => simpa [lastOf, hlast] using startsWord_of_not_isWord (h c hlast)

theorem startsWord_lastOf_blanks {before : Option Char} (hbefore : startsWord before = true)
    {gap : List Char} (hgap : ∀ c ∈ gap, isBlank c = true) :
    startsWord (lastOf before gap) = true :=
  startsWord_lastOf hbefore fun c hc => isWord_of_isBlank (hgap c (List.mem_of_getLast? hc))

theorem startsWord_lastOf_gap {gap : List Char} (hne : gap ≠ [])
    (hgap : ∀ c ∈ gap, isBlank c = true) (before : Option Char) :
    startsWord (lastOf before gap) = true := by
  rw [lastOf_congr hne before none]
  exact startsWord_lastOf_blanks rfl hgap

theorem mentions_of_subset {words others : List String} (hsub : ∀ w ∈ others, w ∈ words)
    {before : Option Char} {cs : List Char} (h : mentions words before cs = false) :
    mentions others before cs = false := by
  induction cs generalizing before with
  | nil => rfl
  | cons c cs ih =>
      rw [mentions, Bool.or_eq_false_iff, Bool.and_eq_false_iff] at h ⊢
      refine ⟨h.1.imp_right fun hnot => ?_, ih h.2⟩
      rw [startsWithWord, List.any_eq_false] at hnot ⊢
      exact fun w hw => hnot w (hsub w hw)

theorem endsWord_iff {rest : List Char} :
    endsWord rest = true ↔ ∀ c ∈ rest.head?, isWord c = false := by
  cases rest <;> simp [endsWord]

/-- A word that is none of the words mentions none of them. -/
theorem mentions_of_isWord {words : List String} {cs : List Char}
    (hword : ∀ c ∈ cs, isWord c = true) (hnot : ∀ w ∈ words, cs ≠ w.toList)
    (before : Option Char) : mentions words before cs = false := by
  -- Behind a word character no word starts, so only the whole of `cs` can be one.
  have hinside : ∀ {c : Char} {cs : List Char}, isWord c = true → (∀ d ∈ cs, isWord d = true) →
      mentions words (some c) cs = false := by
    intro c cs hc hcs
    induction cs generalizing c with
    | nil => rfl
    | cons d cs ih =>
        have hcontinued : startsWord (some c) = false := by simp [startsWord, hc]
        rw [mentions, hcontinued, ih (hcs d List.mem_cons_self)
          fun e he => hcs e (List.mem_cons_of_mem _ he)]
        rfl
  cases cs with
  | nil => rfl
  | cons c cs =>
      rw [mentions, hinside (hword c List.mem_cons_self)
        fun d hd => hword d (List.mem_cons_of_mem _ hd), Bool.or_false]
      cases hstands : startsWithWord words (c :: cs) with
      | false => rw [Bool.and_false]
      | true =>
          obtain ⟨w, hw, rest, hparts, hends⟩ := startsWithWord_iff.mp hstands
          have hrest : rest = [] := by
            cases rest with
            | nil => rfl
            | cons d rest =>
                have hd := endsWord_iff.mp hends d rfl
                rw [hword d (by simp [hparts])] at hd
                exact absurd hd.symm Bool.false_ne_true
          rw [hrest, List.append_nil] at hparts
          exact absurd hparts (hnot w hw)

/-- The word at the head of a text is determined by the text. -/
theorem eq_of_isWord_append {v w a b : List Char} (hv : ∀ c ∈ v, isWord c = true)
    (hw : ∀ c ∈ w, isWord c = true) (ha : ∀ c ∈ a.head?, isWord c = false)
    (hb : ∀ c ∈ b.head?, isWord c = false) (h : v ++ a = w ++ b) : v = w ∧ a = b :=
  append_inj_of_head hv hw ha hb h

/-- A word at the head of a text does not go on where no word can. -/
theorem startsWithWord_of_append {words : List String}
    (hwords : ∀ w ∈ words, IsIdentifier w.toList) {a b : List Char}
    (hb : ∀ c ∈ b.head?, isWord c = false) (h : startsWithWord words (a ++ b) = true) :
    startsWithWord words a = true := by
  obtain ⟨w, hw, after, hparts, hends⟩ := startsWithWord_iff.mp h
  apply startsWithWord_iff.mpr
  rcases List.append_eq_append_iff.mp hparts with ⟨between, ha, hafter⟩ | ⟨between, ha, hafter⟩
  · -- The word would go on beyond `a`.
    cases between with
    | nil => exact ⟨w, hw, [], by simp [ha], rfl⟩
    | cons c between =>
        have hc : isWord c = true := (hwords w hw).isWord c (by simp [ha])
        rw [hb c (by simp [hafter])] at hc
        exact absurd hc Bool.false_ne_true
  · refine ⟨w, hw, between, ha, endsWord_iff.mpr fun c hc => ?_⟩
    apply endsWord_iff.mp hends c
    cases between with
    | nil => exact absurd hc (by simp)
    | cons d between => rw [hafter]; exact hc

/-! ## Quiet parts -/

variable {α : Type} {recognize : List Char → Option α} {words : List String}

/-- What is recognized starts with one of `words`. -/
def OpensWith (recognize : List Char → Option α) (words : List String) : Prop :=
  ∀ ⦃cs phrase⦄, recognize cs = some phrase → startsWithWord words cs = true

theorem OpensWith.isWord_head (h : OpensWith recognize words)
    (hwords : ∀ w ∈ words, IsIdentifier w.toList) {cs : List Char} {phrase : α}
    (hread : recognize cs = some phrase) : ∀ c ∈ cs.head?, isWord c = true := by
  obtain ⟨w, hw, rest, rfl, _⟩ := startsWithWord_iff.mp (h hread)
  exact (hwords w hw).head rest

theorem isQuiet_of_not_isWord (h : OpensWith recognize words)
    (hwords : ∀ w ∈ words, IsIdentifier w.toList) {cs : List Char}
    (hcs : ∀ c ∈ cs, isWord c = false) (before : Option Char) (rest : List Char) :
    IsQuiet recognize before cs rest := by
  rintro front back ⟨rfl, hne⟩ _
  cases hread : recognize (back ++ rest) with
  | none => rfl
  | some phrase =>
      obtain ⟨c, back, rfl⟩ := List.exists_cons_of_ne_nil hne
      have hword := h.isWord_head hwords hread c rfl
      rw [hcs c (by simp)] at hword
      exact absurd hword Bool.false_ne_true

/-- Nothing is recognized in a text that mentions none of the words and ends where a word may end.
-/
theorem isQuiet_of_not_mentions (h : OpensWith recognize words)
    (hwords : ∀ w ∈ words, IsIdentifier w.toList) {before : Option Char} {cs rest : List Char}
    (hcs : mentions words before cs = false) (hrest : ∀ c ∈ rest.head?, isWord c = false) :
    IsQuiet recognize before cs rest := by
  intro front back hplace hstart
  cases hread : recognize (back ++ rest) with
  | none => rfl
  | some phrase =>
      have hstands := startsWithWord_of_append hwords hrest (h hread)
      rw [mentions_eq_false hcs hplace hstart] at hstands
      exact absurd hstands Bool.false_ne_true

/-- A word is quiet if it is not recognized itself: nothing starts inside a word. -/
theorem isQuiet_of_isWord {w rest : List Char} (hw : ∀ c ∈ w, isWord c = true)
    (hnone : recognize (w ++ rest) = none) (before : Option Char) :
    IsQuiet recognize before w rest := by
  rintro front back ⟨rfl, _⟩ hstart
  rcases List.eq_nil_or_concat front with rfl | ⟨front, c, rfl⟩
  · exact hnone
  · have hc : isWord c = true := hw c (by simp)
    simp [startsWord, hc] at hstart

theorem IsLead.isQuiet {modifiers ws : List String} {lead : List Char}
    (hlead : IsLead modifiers ws lead) (hmodifiers : ∀ w ∈ modifiers, IsIdentifier w.toList)
    (h : OpensWith recognize words) (hwords : ∀ w ∈ words, IsIdentifier w.toList)
    (hnot : ∀ w ∈ ws, w ∉ words) (before : Option Char) (rest : List Char) :
    IsQuiet recognize before lead rest := by
  have hblanks : ∀ {gap : List Char}, (∀ c ∈ gap, isBlank c = true) → ∀ before rest,
      IsQuiet recognize before gap rest := fun hgap =>
    isQuiet_of_not_isWord h hwords fun c hc => isWord_of_isBlank (hgap c hc)
  induction hlead generalizing before with
  | gap _ hblank => exact hblanks hblank before rest
  | @modifier gap lead w ws hne hblank hw hlead ih =>
      obtain ⟨hnotw, hnotws⟩ := List.forall_mem_cons.mp hnot
      refine (hblanks hblank before _).append (IsQuiet.append ?_ (ih hnotws _))
      refine isQuiet_of_not_mentions h hwords (mentions_of_isWord (hmodifiers w hw).isWord
        (fun v hv heq => hnotw (String.toList_inj.mp heq ▸ hv)) _) fun c hc => ?_
      rw [List.head?_append_of_ne_nil _ hlead.ne_nil] at hc
      exact isWord_of_isBlank (hlead.head c hc)

theorem IsQuiet.of_append {before : Option Char} {a b c : List Char}
    (h : IsQuiet recognize before (a ++ b) c) : IsQuiet recognize (lastOf before a) b c := by
  rintro front back ⟨rfl, hne⟩ hstart
  exact h (a ++ front) back ⟨(List.append_assoc ..).symm, hne⟩ (by simpa using hstart)

end ClassDiagram.Source
