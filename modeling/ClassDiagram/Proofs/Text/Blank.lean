import ClassDiagram.Proofs.Text.Extent
import ClassDiagram.Text.Blank
import ClassDiagram.Text.Word

/-!
# Words between white space

White space divides a text into words, however much of it there is. So a text with its white space
normalized only depends on its words.
-/

namespace ClassDiagram.Text

theorem wordStep_of_not_blank {c : Char} (hc : isBlank c = false)
    (divided : List Char × List (List Char)) :
    wordStep c divided = (c :: divided.1, divided.2) := by
  unfold wordStep
  rw [hc]

/-- White space ends the word that has begun, if there is one. -/
theorem wordStep_of_blank {c : Char} (hc : isBlank c = true)
    (divided : List Char × List (List Char)) :
    wordStep c divided = match divided with
      | ([], later) => ([], later)
      | (current, later) => ([], current :: later) := by
  obtain ⟨current, later⟩ := divided
  unfold wordStep
  rw [hc]
  cases current <;> rfl

/-- The words of a text of which the first may still be extended. -/
theorem foldr_wordStep_append (a : List Char) (later : List (List Char)) :
    a.foldr wordStep ([], later) =
      ((a.foldr wordStep ([], [])).1, (a.foldr wordStep ([], [])).2 ++ later) := by
  induction a with
  | nil => rfl
  | cons c cs ih =>
      simp only [List.foldr_cons, ih]
      generalize cs.foldr wordStep ([], []) = divided
      obtain ⟨current, further⟩ := divided
      -- At white space it matters whether `cs` has begun a word.
      cases hc : isBlank c with
      | false => simp only [wordStep_of_not_blank hc]
      | true => cases current <;> simp [wordStep_of_blank hc]

theorem foldr_wordStep_blank {c : Char} (hc : isBlank c = true) (cs : List Char) :
    (c :: cs).foldr wordStep ([], []) = ([], words cs) := by
  rw [List.foldr_cons, wordStep_of_blank hc, words]
  generalize cs.foldr wordStep ([], []) = divided
  obtain ⟨current, further⟩ := divided
  cases current <;> rfl

/-- White space separates words. -/
theorem words_append_blank (a b : List Char) {c : Char} (hc : isBlank c = true) :
    words (a ++ c :: b) = words a ++ words b := by
  rw [words, List.foldr_append, foldr_wordStep_blank hc, foldr_wordStep_append, words.eq_def a]
  generalize a.foldr wordStep ([], []) = divided
  obtain ⟨current, further⟩ := divided
  cases current <;> rfl

@[simp]
theorem words_nil : words [] = [] := rfl

theorem words_blanks_append {gap : List Char} (hgap : ∀ c ∈ gap, isBlank c = true)
    (b : List Char) : words (gap ++ b) = words b := by
  induction gap with
  | nil => rfl
  | cons c cs ih =>
      rw [List.cons_append, ← List.nil_append (c :: (cs ++ b)),
        words_append_blank [] _ (hgap c List.mem_cons_self), words_nil, List.nil_append]
      exact ih fun d hd => hgap d (List.mem_cons_of_mem _ hd)

theorem words_append_gap {gap : List Char} (hne : gap ≠ []) (hgap : ∀ c ∈ gap, isBlank c = true)
    (a b : List Char) : words (a ++ (gap ++ b)) = words a ++ words b := by
  cases gap with
  | nil => exact absurd rfl hne
  | cons c cs =>
      rw [List.cons_append, words_append_blank _ _ (hgap c List.mem_cons_self),
        words_blanks_append fun d hd => hgap d (List.mem_cons_of_mem _ hd)]

theorem words_of_forall_not_blank {w : List Char} (hne : w ≠ [])
    (hw : ∀ c ∈ w, isBlank c = false) : words w = [w] := by
  have hfold : w.foldr wordStep ([], []) = (w, []) := by
    clear hne
    induction w with
    | nil => rfl
    | cons c cs ih =>
        rw [List.foldr_cons, ih fun d hd => hw d (List.mem_cons_of_mem _ hd),
          wordStep_of_not_blank (hw c List.mem_cons_self)]
  rw [words, hfold]
  cases w with
  | nil => exact absurd rfl hne
  | cons c cs => rfl

/-- A text in front of white space is divided by itself. -/
theorem words_append_of_head {a b : List Char} (h : ∃ c ∈ b.head?, isBlank c = true) :
    words (a ++ b) = words a ++ words b := by
  obtain ⟨c, hc, hblank⟩ := h
  cases b with
  | nil => exact absurd hc (by simp)
  | cons d b =>
      obtain rfl := Option.some.inj hc
      rw [words_append_blank a b hblank, ← List.singleton_append, words_blanks_append]
      exact List.forall_mem_singleton.mpr hblank

theorem words_append_blanks {w gap : List Char} (hne : w ≠ []) (hw : ∀ c ∈ w, isBlank c = false)
    (hgap : ∀ c ∈ gap, isBlank c = true) : words (w ++ gap) = [w] := by
  cases gap with
  | nil => rw [List.append_nil, words_of_forall_not_blank hne hw]
  | cons c gap =>
      rw [words_append_of_head ⟨c, rfl, hgap c List.mem_cons_self⟩, words_of_forall_not_blank hne hw,
        ← List.append_nil (c :: gap), words_blanks_append hgap, words_nil, List.append_nil]

/-- A text with other characters than white space has a word. -/
theorem words_ne_nil {cs : List Char} {c : Char} (hmem : c ∈ cs) (hc : isBlank c = false) :
    words cs ≠ [] := by
  induction cs with
  | nil => exact absurd hmem List.not_mem_nil
  | cons d cs ih =>
      cases hd : isBlank d with
      | false =>
          rw [words, List.foldr_cons, wordStep_of_not_blank hd]
          exact List.cons_ne_nil _ _
      | true =>
          rw [← List.singleton_append, words_blanks_append (List.forall_mem_singleton.mpr hd)]
          refine ih ((List.mem_cons.mp hmem).resolve_left ?_)
          rintro rfl
          rw [hc] at hd
          exact Bool.false_ne_true hd

/-- The last character of a text ends its last word. -/
theorem exists_last_word (cs : List Char) {m : Char} (hm : isBlank m = false) :
    ∃ front last, words (cs ++ [m]) = front ++ [last ++ [m]] := by
  induction hn : cs.length using Nat.strongRecOn generalizing cs with
  | ind n ih =>
      by_cases hblank : ∃ c ∈ cs, isBlank c = true
      · obtain ⟨c, hc, hcblank⟩ := hblank
        obtain ⟨before, after, rfl⟩ := List.append_of_mem hc
        have hshort : after.length < n := by
          rw [← hn, List.length_append, List.length_cons]
          omega
        obtain ⟨front, last, hwords⟩ := ih _ hshort after rfl
        refine ⟨words before ++ front, last, ?_⟩
        rw [List.append_assoc, List.cons_append, words_append_blank _ _ hcblank, hwords,
          List.append_assoc]
      · refine ⟨[], cs, words_of_forall_not_blank (by simp) fun c hc => ?_⟩
        rcases List.mem_append.mp hc with hc | hc
        · exact Bool.eq_false_iff.mpr fun hcblank => hblank ⟨c, hc, hcblank⟩
        · rwa [List.mem_singleton.mp hc]

/-- Every character that is not white space belongs to a word. -/
theorem exists_mem_words {cs : List Char} {c : Char} (hmem : c ∈ cs) (hc : isBlank c = false) :
    ∃ w ∈ words cs, c ∈ w := by
  -- On the way, the word of `c` may be the one that can still be extended.
  have hfold : c ∈ (cs.foldr wordStep ([], [])).1 ∨ ∃ w ∈ (cs.foldr wordStep ([], [])).2, c ∈ w := by
    induction cs with
    | nil => exact absurd hmem List.not_mem_nil
    | cons d cs ih =>
        rw [List.foldr_cons]
        cases hd : isBlank d with
        | false =>
            rw [wordStep_of_not_blank hd]
            rcases List.mem_cons.mp hmem with rfl | hmem
            · exact .inl List.mem_cons_self
            · exact (ih hmem).imp (List.mem_cons_of_mem _) id
        | true =>
            have hne : c ≠ d := by
              rintro rfl
              rw [hc] at hd
              exact Bool.false_ne_true hd
            have hstate := ih ((List.mem_cons.mp hmem).resolve_left hne)
            revert hstate
            rw [wordStep_of_blank hd]
            generalize cs.foldr wordStep ([], []) = divided
            obtain ⟨current, later⟩ := divided
            cases current <;> simp
  rw [words]
  revert hfold
  generalize cs.foldr wordStep ([], []) = divided
  obtain ⟨current, later⟩ := divided
  cases current <;> simp

/-- A word consists of characters of the text. -/
theorem mem_of_mem_words {cs w : List Char} {c : Char} (hw : w ∈ words cs) (hc : c ∈ w) :
    c ∈ cs := by
  induction hn : cs.length using Nat.strongRecOn generalizing cs with
  | ind n ih =>
      by_cases hblank : ∃ d ∈ cs, isBlank d = true
      · obtain ⟨d, hd, hdblank⟩ := hblank
        obtain ⟨before, after, rfl⟩ := List.append_of_mem hd
        rw [List.length_append, List.length_cons] at hn
        rw [words_append_blank _ _ hdblank] at hw
        rcases List.mem_append.mp hw with hw | hw
        · exact List.mem_append_left _ (ih _ (by omega) hw rfl)
        · exact List.mem_append_right _ (List.mem_cons_of_mem _ (ih _ (by omega) hw rfl))
      · by_cases hne : cs = []
        · rw [hne] at hw
          exact absurd hw List.not_mem_nil
        · rw [words_of_forall_not_blank hne fun d hd =>
            Bool.eq_false_iff.mpr fun hdblank => hblank ⟨d, hd, hdblank⟩] at hw
          rwa [List.mem_singleton.mp hw] at hc

/-- A word has no white space. -/
theorem isBlank_of_mem_words {cs w : List Char} {c : Char} (hw : w ∈ words cs) (hc : c ∈ w) :
    isBlank c = false := by
  -- The word that can still be extended has none either.
  have hfold : ∀ v ∈ (cs.foldr wordStep ([], [])).1 :: (cs.foldr wordStep ([], [])).2, ∀ d ∈ v,
      isBlank d = false := by
    clear hw
    induction cs with
    | nil => simp
    | cons e cs ih =>
        rw [List.foldr_cons]
        revert ih
        generalize cs.foldr wordStep ([], []) = divided
        obtain ⟨current, later⟩ := divided
        intro ih
        cases he : isBlank e with
        | false =>
            rw [wordStep_of_not_blank he]
            rw [List.forall_mem_cons] at ih ⊢
            exact ⟨List.forall_mem_cons.mpr ⟨he, ih.1⟩, ih.2⟩
        | true =>
            rw [wordStep_of_blank he]
            cases current <;> simpa using ih
  rw [words] at hw
  split at hw
  next heq => exact hfold w (by rw [heq]; exact List.mem_cons_of_mem _ hw) c hc
  next heq => exact hfold w (by rw [heq]; exact hw) c hc

/-! ## Normalized white space -/

theorem normalizeBlanks_of_not_blank {w : List Char} (hne : w ≠ [])
    (hw : ∀ c ∈ w, isBlank c = false) : normalizeBlanks w = w := by
  rw [normalizeBlanks, words_of_forall_not_blank hne hw, List.intercalate_singleton]

theorem mem_intercalate {sep : List Char} {ws : List (List Char)} {c : Char}
    (h : c ∈ sep.intercalate ws) : c ∈ sep ∨ ∃ w ∈ ws, c ∈ w := by
  induction ws with
  | nil => exact absurd h List.not_mem_nil
  | cons w ws ih =>
      cases ws with
      | nil => exact .inr ⟨w, by simp, by simpa using h⟩
      | cons v ws =>
          rw [List.intercalate_cons_cons, List.mem_append, List.mem_append] at h
          rcases h with (h | h) | h
          · exact .inr ⟨w, by simp, h⟩
          · exact .inl h
          · exact (ih h).imp_right fun ⟨u, hu, hcu⟩ => ⟨u, List.mem_cons_of_mem _ hu, hcu⟩

theorem mem_intercalate_of_mem {sep w : List Char} {ws : List (List Char)} (hw : w ∈ ws) {c : Char}
    (hc : c ∈ w) : c ∈ sep.intercalate ws := by
  induction ws with
  | nil => exact absurd hw List.not_mem_nil
  | cons v ws ih =>
      cases ws with
      | nil =>
          rw [List.mem_singleton.mp hw] at hc
          simpa using hc
      | cons u ws =>
          rw [List.intercalate_cons_cons]
          rcases List.mem_cons.mp hw with rfl | hw
          · exact List.mem_append_left _ (List.mem_append_left _ hc)
          · exact List.mem_append_right _ (ih hw)

/-- Normalizing white space keeps all other characters. -/
theorem mem_normalizeBlanks_iff {cs : List Char} {c : Char} (hc : isBlank c = false) :
    c ∈ normalizeBlanks cs ↔ c ∈ cs := by
  constructor
  · intro h
    rcases mem_intercalate h with hsep | ⟨w, hw, hcw⟩
    · rw [List.mem_singleton.mp hsep] at hc
      exact absurd hc (by decide)
    · exact mem_of_mem_words hw hcw
  · intro h
    obtain ⟨w, hw, hcw⟩ := exists_mem_words h hc
    exact mem_intercalate_of_mem hw hcw

/-- Normalized text has no other white space than spaces. -/
theorem mem_normalizeBlanks {cs : List Char} {c : Char} (h : c ∈ normalizeBlanks cs) :
    c = ' ' ∨ isBlank c = false ∧ c ∈ cs := by
  rcases mem_intercalate h with hsep | ⟨w, hw, hcw⟩
  · exact .inl (List.mem_singleton.mp hsep)
  · exact .inr ⟨isBlank_of_mem_words hw hcw, mem_of_mem_words hw hcw⟩

theorem exists_intercalate_concat (sep : List Char) (ws : List (List Char)) (w : List Char) :
    ∃ front, sep.intercalate (ws ++ [w]) = front ++ w := by
  induction ws with
  | nil => exact ⟨[], by simp⟩
  | cons v ws ih =>
      obtain ⟨front, hfront⟩ := ih
      obtain ⟨u, us, hus⟩ : ∃ u us, ws ++ [w] = u :: us :=
        List.exists_cons_of_ne_nil (by simp)
      refine ⟨v ++ sep ++ front, ?_⟩
      rw [List.cons_append, hus, List.intercalate_cons_cons, ← hus, hfront, List.append_assoc _ front]

/-- A text is white space, or it has a last character that is none. -/
theorem forall_blank_or_last (cs : List Char) : (∀ c ∈ cs, isBlank c = true) ∨
    ∃ front last back, cs = front ++ last :: back ∧ isBlank last = false ∧
      ∀ c ∈ back, isBlank c = true := by
  induction cs with
  | nil => exact .inl fun _ hc => absurd hc List.not_mem_nil
  | cons d cs ih =>
      rcases ih with hblank | ⟨front, last, back, rfl, hlast⟩
      · cases hd : isBlank d with
        | true => exact .inl (List.forall_mem_cons.mpr ⟨hd, hblank⟩)
        | false => exact .inr ⟨[], d, cs, rfl, hd, hblank⟩
      · exact .inr ⟨d :: front, last, back, rfl, hlast⟩

/-- The last character of a text that is no white space stays the last one. -/
theorem getLast?_normalizeBlanks (a : List Char) {c : Char} (hc : isBlank c = false)
    {b : List Char} (hb : ∀ d ∈ b, isBlank d = true) :
    (normalizeBlanks (a ++ c :: b)).getLast? = some c := by
  have hwords : words (a ++ c :: b) = words (a ++ [c]) := by
    cases b with
    | nil => rfl
    | cons d b =>
        have hblanks := words_append_gap (List.cons_ne_nil d b) hb (a ++ [c]) []
        simpa using hblanks
  obtain ⟨front, last, hlast⟩ := exists_last_word a hc
  obtain ⟨further, hfurther⟩ := exists_intercalate_concat [' '] front (last ++ [c])
  rw [normalizeBlanks, hwords, hlast, hfurther, ← List.append_assoc, List.getLast?_concat]

/-! ## Leading white space -/

theorem takeWhile_append_of_head {p : Char → Bool} {a b : List Char} (ha : ∀ c ∈ a, p c = true)
    (hb : ∀ c ∈ b.head?, p c = false) : (a ++ b).takeWhile p = a := by
  rw [List.takeWhile_append_of_pos ha]
  cases b with
  | nil => simp
  | cons c cs => simp [hb c rfl]

/-- The longest part at the head of a text that has a property is determined by the text. -/
theorem append_inj_of_head {p : Char → Bool} {a b c d : List Char} (ha : ∀ e ∈ a, p e = true)
    (hc : ∀ e ∈ c, p e = true) (hb : ∀ e ∈ b.head?, p e = false) (hd : ∀ e ∈ d.head?, p e = false)
    (h : a ++ b = c ++ d) : a = c ∧ b = d := by
  have hsame : a = c := by
    rw [← takeWhile_append_of_head ha hb, h, takeWhile_append_of_head hc hd]
  subst hsame
  exact ⟨rfl, List.append_cancel_left h⟩

theorem dropWhile_append_of_head {p : Char → Bool} {a b : List Char} (ha : ∀ c ∈ a, p c = true)
    (hb : ∀ c ∈ b.head?, p c = false) : (a ++ b).dropWhile p = b := by
  rw [List.dropWhile_append_of_pos ha]
  cases b with
  | nil => simp
  | cons c cs => simp [hb c rfl]

theorem dropWhile_of_head {p : Char → Bool} {cs : List Char} (h : ∀ c ∈ cs.head?, p c = false) :
    cs.dropWhile p = cs := by
  cases cs with
  | nil => rfl
  | cons c cs => simp [h c rfl]

/-- White space at the head of a text has what all white space has. -/
theorem forall_mem_head_gap {p : Char → Prop} (hp : ∀ {c}, isBlank c = true → p c)
    {gap : List Char} (hne : gap ≠ []) (hgap : ∀ c ∈ gap, isBlank c = true) (rest : List Char) :
    ∀ c ∈ (gap ++ rest).head?, p c := by
  cases gap with
  | nil => exact absurd rfl hne
  | cons d gap => exact forall_mem_head_cons (hp (hgap d List.mem_cons_self)) (gap ++ rest)

/-- As `forall_mem_head_gap`, where there may be no white space in front of `d`. -/
theorem forall_mem_head_blanks {p : Char → Prop} (hp : ∀ {c}, isBlank c = true → p c)
    {gap : List Char} (hgap : ∀ c ∈ gap, isBlank c = true) {d : Char} (hd : p d)
    (rest : List Char) : ∀ c ∈ (gap ++ d :: rest).head?, p c := by
  cases gap with
  | nil => exact forall_mem_head_cons hd rest
  | cons e gap => exact forall_mem_head_cons (hp (hgap e List.mem_cons_self)) (gap ++ d :: rest)

theorem takeWhile_append_dropWhile_isBlank (cs : List Char) :
    cs = cs.takeWhile isBlank ++ cs.dropWhile isBlank ∧
      ∀ c ∈ cs.takeWhile isBlank, isBlank c = true :=
  ⟨List.takeWhile_append_dropWhile.symm, fun c hc => List.all_eq_true.mp List.all_takeWhile c hc⟩

theorem blanks_append {gap rest : List Char} (hgap : ∀ c ∈ gap, isBlank c = true)
    (hrest : ∀ c ∈ rest.head?, isBlank c = false) : blanks (gap ++ rest) = (gap, rest) := by
  rw [blanks, takeWhile_append_of_head hgap hrest, dropWhile_append_of_head hgap hrest]

theorem blanks?_append {gap rest : List Char} (hne : gap ≠ [])
    (hgap : ∀ c ∈ gap, isBlank c = true) (hrest : ∀ c ∈ rest.head?, isBlank c = false) :
    blanks? (gap ++ rest) = some (gap, rest) := by
  cases gap with
  | nil => exact absurd rfl hne
  | cons c cs =>
      rw [List.cons_append, blanks?, if_pos (hgap c List.mem_cons_self), ← List.cons_append,
        blanks_append hgap hrest]

/-- A text that starts with something else has no leading white space. -/
theorem blanks?_eq_none {cs : List Char} (h : ∀ c ∈ cs.head?, isBlank c = false) :
    blanks? cs = none := by
  cases cs with
  | nil => rfl
  | cons c cs => rw [blanks?, h c rfl]; rfl

/-- What is split off is white space, and it makes up the text with what is left. -/
theorem blanks?_eq_some {cs gap rest : List Char} (h : blanks? cs = some (gap, rest)) :
    cs = gap ++ rest ∧ gap ≠ [] ∧ (∀ c ∈ gap, isBlank c = true) := by
  cases cs with
  | nil => simp [blanks?] at h
  | cons c cs =>
      rw [blanks?] at h
      split at h
      next hc =>
        simp only [blanks, Option.some.injEq, Prod.mk.injEq] at h
        obtain ⟨rfl, rfl⟩ := h
        refine ⟨(List.takeWhile_append_dropWhile).symm, by simp [hc], fun d hd => ?_⟩
        exact List.all_eq_true.mp List.all_takeWhile d hd
      next => simp at h

/-! ## Word characters are not white space -/

def blankRanges : List (Nat × Nat) :=
  [(0x9, 0xD), (0x20, 0x20), (0x85, 0x85), (0xA0, 0xA0), (0x1680, 0x1680), (0x2000, 0x200A),
    (0x2028, 0x2029), (0x202F, 0x202F), (0x205F, 0x205F), (0x3000, 0x3000)]

theorem exists_blankRange {c : Char} (h : isBlank c = true) :
    ∃ r ∈ blankRanges, r.1 ≤ c.toNat ∧ c.toNat ≤ r.2 := by
  simp only [isBlank, Bool.or_eq_true, Bool.and_eq_true, decide_eq_true_eq] at h
  simp only [blankRanges, List.mem_cons, List.not_mem_nil, or_false, exists_eq_or_imp,
    exists_eq_left]
  omega

theorem blankRanges_apart :
    (blankRanges.all fun r => wordRanges.all fun s => r.2 < s.1 || s.2 < r.1) = true := by
  decide +kernel

theorem toNat_of_isAlpha {c : Char} (h : c.isAlpha = true) : 65 ≤ c.toNat ∧ c.toNat ≤ 122 := by
  rcases Bool.or_eq_true_iff.mp h with h | h
  · obtain ⟨hge, hle⟩ : c.val ≥ 'A'.val ∧ c.val ≤ 'Z'.val := of_decide_eq_true h
    exact ⟨UInt32.le_iff_toNat_le.mp hge, Nat.le_trans (UInt32.le_iff_toNat_le.mp hle) (by decide)⟩
  · obtain ⟨hge, hle⟩ := Bool.and_eq_true_iff.mp h
    have hge : 'a'.val ≤ c.val := of_decide_eq_true hge
    have hle : c.val ≤ 'z'.val := of_decide_eq_true hle
    exact ⟨Nat.le_trans (by decide) (UInt32.le_iff_toNat_le.mp hge), UInt32.le_iff_toNat_le.mp hle⟩

theorem toNat_of_isDigit {c : Char} (h : c.isDigit = true) : 48 ≤ c.toNat ∧ c.toNat ≤ 57 := by
  obtain ⟨hge, hle⟩ := Bool.and_eq_true_iff.mp h
  have hge : '0'.val ≤ c.val := of_decide_eq_true hge
  have hle : c.val ≤ '9'.val := of_decide_eq_true hle
  exact ⟨UInt32.le_iff_toNat_le.mp hge, UInt32.le_iff_toNat_le.mp hle⟩

theorem isDigit_of_mem_toDigits {n : Nat} {c : Char} (hc : c ∈ Nat.toDigits 10 n) :
    c.isDigit = true :=
  Nat.isDigit_of_mem_toDigits (by decide) (by decide) hc

theorem toNat_of_isAsciiWord {c : Char} (h : isAsciiWord c = true) :
    48 ≤ c.toNat ∧ c.toNat ≤ 122 := by
  rcases Bool.or_eq_true_iff.mp h with hword | hunderscore
  · rcases Bool.or_eq_true_iff.mp hword with halpha | hdigit
    · have := toNat_of_isAlpha halpha
      omega
    · have := toNat_of_isDigit hdigit
      omega
  · rw [of_decide_eq_true hunderscore]
    decide

theorem isAsciiWord_of_isBlank {c : Char} (h : isBlank c = true) : isAsciiWord c = false := by
  have hrange := exists_blankRange h
  simp only [blankRanges, List.mem_cons, List.not_mem_nil, or_false, exists_eq_or_imp,
    exists_eq_left] at hrange
  rw [Bool.eq_false_iff]
  intro hword
  have := toNat_of_isAsciiWord hword
  omega

/-- White space ends a word. -/
theorem isWord_of_isBlank {c : Char} (h : isBlank c = true) : isWord c = false := by
  rw [isWord]
  split
  next => exact isAsciiWord_of_isBlank h
  next =>
    -- Beyond ASCII both kinds are tables of ranges, and no range of one meets one of the other.
    obtain ⟨r, hr, hlo, hhi⟩ := exists_blankRange h
    rw [List.any_eq_false]
    intro s hs
    have hapart := List.all_eq_true.mp (List.all_eq_true.mp blankRanges_apart r hr) s hs
    simp only [Bool.or_eq_true, decide_eq_true_eq] at hapart
    simp only [Bool.and_eq_true, decide_eq_true_eq, not_and]
    omega

theorem isBlank_of_isWord {c : Char} (h : isWord c = true) : isBlank c = false := by
  cases hc : isBlank c with
  | false => rfl
  | true => rw [isWord_of_isBlank hc] at h; exact absurd h Bool.false_ne_true

/-! ## Trimming -/

theorem trimStart_append {gap rest : List Char} (hgap : ∀ c ∈ gap, isBlank c = true)
    (hrest : ∀ c ∈ rest.head?, isBlank c = false) : trimStart (gap ++ rest) = rest :=
  dropWhile_append_of_head hgap hrest

/-- Trimming takes the white space around a text off, and nothing of the text. -/
theorem trim_append {before core after : List Char} (hbefore : ∀ c ∈ before, isBlank c = true)
    (hafter : ∀ c ∈ after, isBlank c = true) (hne : core ≠ [])
    (hhead : ∀ c ∈ core.head?, isBlank c = false) (hlast : ∀ c ∈ core.getLast?, isBlank c = false) :
    trim (before ++ (core ++ after)) = core := by
  have hstart : trimStart (before ++ (core ++ after)) = core ++ after := by
    refine trimStart_append hbefore fun c hc => hhead c ?_
    cases core with
    | nil => exact absurd rfl hne
    | cons d core => exact hc
  rw [trim, hstart, trimEnd, List.reverse_append, dropWhile_append_of_head, List.reverse_reverse]
  · exact fun c hc => hafter c (List.mem_reverse.mp hc)
  · exact fun c hc => hlast c (by rwa [List.head?_reverse] at hc)

theorem trim_of_forall_blank {cs : List Char} (h : ∀ c ∈ cs, isBlank c = true) : trim cs = [] := by
  have hstart := dropWhile_append_of_head (b := []) h (by simp)
  rw [List.append_nil] at hstart
  rw [trim, trimStart, hstart]
  rfl

theorem trim_of_forall_not_blank {cs : List Char} (h : ∀ c ∈ cs, isBlank c = false) :
    trim cs = cs := by
  rw [trim, trimStart, dropWhile_of_head fun c hc => h c (List.mem_of_mem_head? hc), trimEnd,
    dropWhile_of_head fun c hc => h c (List.mem_reverse.mp (List.mem_of_mem_head? hc)),
    List.reverse_reverse]

theorem exists_trim (cs : List Char) : ∃ before after, (∀ c ∈ before, isBlank c = true) ∧
    (∀ c ∈ after, isBlank c = true) ∧ cs = before ++ (trim cs ++ after) := by
  obtain ⟨hstart, hbefore⟩ := takeWhile_append_dropWhile_isBlank cs
  obtain ⟨hend, hafter⟩ := takeWhile_append_dropWhile_isBlank (trimStart cs).reverse
  refine ⟨_, ((trimStart cs).reverse.takeWhile isBlank).reverse, hbefore, fun c hc => ?_, ?_⟩
  · exact hafter c (List.mem_reverse.mp hc)
  · rw [trim, trimEnd, ← List.reverse_append, ← hend, List.reverse_reverse]
    exact hstart

end ClassDiagram.Text
