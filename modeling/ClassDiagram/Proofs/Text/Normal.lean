import ClassDiagram.Proofs.Text.Blank

/-!
# Normalized text

A text with normalized white space is divided into the same words again. It starts and ends with a
word, so there is nothing to normalize in it and nothing to trim.
-/

namespace ClassDiagram.Text

/-- No word is empty. -/
theorem ne_nil_of_mem_words {cs w : List Char} (hw : w ∈ words cs) : w ≠ [] := by
  have hlater : ∀ v ∈ (cs.foldr wordStep ([], [])).2, v ≠ [] := by
    clear hw
    induction cs with
    | nil => exact fun _ hv => absurd hv List.not_mem_nil
    | cons c cs ih =>
        rw [List.foldr_cons]
        revert ih
        generalize cs.foldr wordStep ([], []) = divided
        obtain ⟨current, later⟩ := divided
        intro ih
        cases hc : isBlank c with
        | false => simpa [wordStep_of_not_blank hc] using ih
        | true =>
            rw [wordStep_of_blank hc]
            cases current <;> simpa using ih
  rw [words] at hw
  split at hw
  next heq => exact hlater w (by rw [heq]; exact hw)
  next hbegun heq =>
    rcases List.mem_cons.mp hw with rfl | hw
    · exact hbegun
    · exact hlater w (by rw [heq]; exact hw)

/-- Words with single spaces between them are divided there. -/
theorem words_intercalate {ws : List (List Char)}
    (h : ∀ w ∈ ws, w ≠ [] ∧ ∀ c ∈ w, isBlank c = false) : words ([' '].intercalate ws) = ws := by
  induction ws with
  | nil => rfl
  | cons w ws ih =>
      obtain ⟨⟨hne, hblank⟩, hws⟩ := List.forall_mem_cons.mp h
      cases ws with
      | nil => rw [List.intercalate_singleton, words_of_forall_not_blank hne hblank]
      | cons v ws =>
          rw [List.intercalate_cons_cons, List.append_assoc, List.singleton_append,
            words_append_blank _ _ (by decide), words_of_forall_not_blank hne hblank, ih hws]
          rfl

theorem words_normalizeBlanks (cs : List Char) : words (normalizeBlanks cs) = words cs :=
  words_intercalate fun _ hw => ⟨ne_nil_of_mem_words hw, fun _ => isBlank_of_mem_words hw⟩

/-- Normalizing white space again changes nothing. -/
theorem normalizeBlanks_normalizeBlanks (cs : List Char) :
    normalizeBlanks (normalizeBlanks cs) = normalizeBlanks cs := by
  rw [normalizeBlanks, words_normalizeBlanks, normalizeBlanks]

/-- The first word, and the others with a separator in front of each. -/
theorem intercalate_cons (sep w : List Char) (ws : List (List Char)) :
    sep.intercalate (w :: ws) = w ++ ws.flatMap (sep ++ ·) := by
  induction ws generalizing w with
  | nil => simp
  | cons v ws ih =>
      rw [List.intercalate_cons_cons, ih, List.flatMap_cons, List.append_assoc, List.append_assoc]

theorem intercalate_concat (sep w : List Char) {ws : List (List Char)} (hne : ws ≠ []) :
    sep.intercalate (ws ++ [w]) = sep.intercalate ws ++ (sep ++ w) := by
  obtain ⟨v, ws, rfl⟩ := List.exists_cons_of_ne_nil hne
  rw [List.cons_append, intercalate_cons, intercalate_cons, List.flatMap_append, List.append_assoc,
    List.flatMap_singleton]

/-- A text, a space and a word at the end. -/
theorem normalizeBlanks_append_word {cs w : List Char} (hcs : words cs ≠ []) (hne : w ≠ [])
    (hw : ∀ c ∈ w, isBlank c = false) :
    normalizeBlanks (cs ++ ' ' :: w) = normalizeBlanks cs ++ ' ' :: w := by
  rw [normalizeBlanks, words_append_blank _ _ (by decide), words_of_forall_not_blank hne hw,
    intercalate_concat _ _ hcs]
  rfl

theorem exists_words_cons {c : Char} (hc : isBlank c = false) (cs : List Char) :
    ∃ w ws, words (c :: cs) = (c :: w) :: ws := by
  rw [words, List.foldr_cons, wordStep_of_not_blank hc]
  exact ⟨_, _, rfl⟩

/-- A text that starts with a word still does so. -/
theorem head?_normalizeBlanks {c : Char} (hc : isBlank c = false) (cs : List Char) :
    (normalizeBlanks (c :: cs)).head? = some c := by
  obtain ⟨w, ws, hwords⟩ := exists_words_cons hc cs
  rw [normalizeBlanks, hwords, intercalate_cons]
  rfl

theorem head?_normalizeBlanks_not_blank (cs : List Char) :
    ∀ c ∈ (normalizeBlanks cs).head?, isBlank c = false := by
  intro c hc
  cases hwords : words cs with
  | nil =>
      rw [normalizeBlanks, hwords] at hc
      exact absurd hc (by simp)
  | cons w ws =>
      have hw : w ∈ words cs := hwords ▸ List.mem_cons_self
      obtain ⟨d, further, rfl⟩ := List.exists_cons_of_ne_nil (ne_nil_of_mem_words hw)
      rw [normalizeBlanks, hwords, intercalate_cons] at hc
      obtain rfl := Option.some.inj hc
      exact isBlank_of_mem_words hw List.mem_cons_self

theorem getLast?_normalizeBlanks_not_blank (cs : List Char) :
    ∀ c ∈ (normalizeBlanks cs).getLast?, isBlank c = false := by
  intro c hc
  rcases List.eq_nil_or_concat (words cs) with hwords | ⟨front, w, hwords⟩
  · rw [normalizeBlanks, hwords] at hc
    exact absurd hc (by simp)
  · rw [List.concat_eq_append] at hwords
    obtain ⟨before, hbefore⟩ := exists_intercalate_concat [' '] front w
    have hw : w ∈ words cs := by simp [hwords]
    have hne := ne_nil_of_mem_words hw
    rw [normalizeBlanks, hwords, hbefore, List.getLast?_append,
      List.getLast?_eq_some_getLast hne] at hc
    obtain rfl := Option.some.inj hc
    exact isBlank_of_mem_words hw (List.getLast_mem hne)

/-- A text without white space around it is not trimmed. -/
theorem trim_eq_self {cs : List Char} (hhead : ∀ c ∈ cs.head?, isBlank c = false)
    (hlast : ∀ c ∈ cs.getLast?, isBlank c = false) : trim cs = cs := by
  by_cases hne : cs = []
  · rw [hne]
    rfl
  · have htrim : trim ([] ++ (cs ++ [])) = cs :=
      trim_append (by simp) (by simp) hne hhead hlast
    rwa [List.nil_append, List.append_nil] at htrim

/-- White space around a text does not matter for what is left of it. -/
theorem trim_blanks_append {before after : List Char} (hbefore : ∀ c ∈ before, isBlank c = true)
    (hafter : ∀ c ∈ after, isBlank c = true) (cs : List Char) :
    trim (before ++ (cs ++ after)) = trim cs := by
  have hend : trimStart after = [] := by
    have hall : trimStart (after ++ []) = [] := trimStart_append hafter (by simp)
    rwa [List.append_nil] at hall
  rw [trim, trim, trimStart, List.dropWhile_append_of_pos hbefore, List.dropWhile_append]
  split
  next hnil => rw [← trimStart, hend, trimStart, List.isEmpty_iff.mp hnil]
  next =>
    rw [trimEnd, List.reverse_append,
      List.dropWhile_append_of_pos fun c hc => hafter c (List.mem_reverse.mp hc)]
    rfl

@[simp]
theorem trim_trim (cs : List Char) : trim (trim cs) = trim cs := by
  obtain ⟨before, after, hbefore, hafter, hparts⟩ := exists_trim cs
  have htrim := trim_blanks_append hbefore hafter (trim cs)
  rw [← hparts] at htrim
  exact htrim.symm

theorem trim_normalizeBlanks (cs : List Char) : trim (normalizeBlanks cs) = normalizeBlanks cs :=
  trim_eq_self (head?_normalizeBlanks_not_blank cs) (getLast?_normalizeBlanks_not_blank cs)

end ClassDiagram.Text
