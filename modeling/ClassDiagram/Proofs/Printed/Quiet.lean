import ClassDiagram.Proofs.Printed.Member

/-!
# Where nothing is recognized

An ending in which no access keyword of a form is mentioned contains no declaration of the form.
The access keywords of accessors are harmless: what follows them is a single word.
-/

namespace ClassDiagram.Printed

open Text Source

variable {language : Language} {α : Type} {recognize : List Char → Option α}
  {keywords : List String}

/-! ## Parts -/

section Parts

variable (hopens : OpensWith recognize keywords)
  (hkeywords : ∀ w ∈ keywords, IsIdentifier w.toList) {before : Option Char}
  {rest further : List Char}

include hopens hkeywords

theorem isQuiet_blanks_append {gap : List Char} (hgap : ∀ c ∈ gap, isBlank c = true)
    (hrest : IsQuiet recognize (lastOf before gap) rest further) :
    IsQuiet recognize before (gap ++ rest) further := by
  refine IsQuiet.append (isQuiet_of_not_isWord hopens hkeywords (fun c hc => ?_) before _) hrest
  exact isWord_of_isBlank (hgap c hc)

theorem isQuiet_cons {d : Char} (hd : isWord d = false)
    (hrest : IsQuiet recognize (some d) rest further) :
    IsQuiet recognize before (d :: rest) further := by
  refine IsQuiet.append (a := [d]) (isQuiet_of_not_isWord hopens hkeywords ?_ before _) hrest
  exact List.forall_mem_singleton.mpr hd

/-- A stretch without a keyword, between two marks. -/
theorem Stretch.isQuiet (s : Stretch) (hs : mentions keywords none s.skeleton = false)
    (hbefore : startsWord before = true) {d : Char} (hd : isWord d = false)
    (hrest : IsQuiet recognize (some d) rest further) :
    IsQuiet recognize before (s.skeleton ++ d :: rest) further := by
  refine IsQuiet.append (isQuiet_of_not_mentions hopens hkeywords ?_ (forall_mem_head_cons hd _))
    (isQuiet_cons hopens hkeywords hd hrest)
  rw [mentions_congr (show startsWord before = startsWord none from hbefore), hs]

theorem isQuiet_initialized (initializer : Option Stretch)
    (hlacks : ∀ s ∈ initializer, mentions keywords none s.skeleton = false) :
    IsQuiet recognize before (initialized Stretch.skeleton initializer) further := by
  have hend : ∀ {before : Option Char}, IsQuiet recognize before [';'] further :=
    isQuiet_cons hopens hkeywords (by decide +kernel) isQuiet_nil
  cases initializer with
  | none => exact hend
  | some s =>
      apply isQuiet_cons hopens hkeywords (by decide +kernel)
      exact s.isQuiet hopens hkeywords (hlacks s rfl) (by decide +kernel) (by decide +kernel)
        isQuiet_nil

theorem Clauses.isQuiet (clauses : Clauses) {body : Option Stretch}
    (hclauses : mentions keywords none clauses.skeleton = false)
    (hlacks : ∀ s ∈ body, mentions keywords none s.skeleton = false)
    (hbefore : startsWord before = true) :
    IsQuiet recognize before (clauses.skeleton ++ bodied Stretch.skeleton body) further := by
  cases body with
  | none =>
      exact clauses.toStretch.isQuiet hopens hkeywords hclauses hbefore (by decide +kernel)
        isQuiet_nil
  | some s =>
      apply clauses.toStretch.isQuiet hopens hkeywords hclauses hbefore (by decide +kernel)
      exact s.isQuiet hopens hkeywords (hlacks s rfl) (by decide +kernel) (by decide +kernel)
        isQuiet_nil

end Parts

/-! ## Endings -/

section Endings

variable {form : Member.Form} {ends : List Char} (hform : form.Breaks ends)

include hform

/-- An access keyword in front of a single word declares nothing. -/
theorem Access.recognize_eq_none (access : Access language) {w : List Char} (hw : IsIdentifier w)
    {m : Char} {ending : List Char} (hending : BreaksWith m ending) :
    form.recognize (access.word.toList ++ (access.gap.text ++ (w ++ ending))) = none := by
  cases hread : form.recognize (access.word.toList ++ (access.gap.text ++ (w ++ ending))) with
  | none => rfl
  | some p =>
      obtain ⟨v, hv, after, hparts, hends, htwo⟩ := hform.two_le_length_words hread
      have hnext : ∀ c ∈ (access.gap.text ++ (w ++ ending)).head?, isWord c = false :=
        forall_mem_head_gap isWord_of_isBlank access.gap.ne_nil access.gap.blank _
      obtain ⟨_, rfl⟩ := eq_of_isWord_append
        (isIdentifier_accessKeywords language access.word access.mem).isWord
        (hform.access v hv).isWord hnext (endsWord_iff.mp hends) hparts
      obtain ⟨gap, hgap, htake⟩ := hending.startsWithBreak.takeWhile
      have hword : words (w ++ gap) = [w] :=
        words_append_blanks hw.ne_nil (fun c hc => isBlank_of_isWord (hw.isWord c hc)) hgap
      -- Up to the break there is one word, and a declaration needs two.
      rw [takeWhile_unbroken_append (unbroken_of_forall_isBlank access.gap.blank),
        takeWhile_unbroken_append (unbroken_of_isWord hw.isWord), htake,
        words_blanks_append access.gap.blank, hword, List.length_singleton] at htwo
      omega

theorem Accessor.isQuiet (hsub : ∀ w ∈ form.access, w ∈ language.accessKeywords)
    {keywords : List String} (hkeywords : ∀ w ∈ keywords, IsIdentifier w.toList)
    (hother : ∀ w ∈ keywords, w ∉ language.accessKeywords) (accessor : Accessor language keywords)
    {before : Option Char} {rest further : List Char}
    (hrest : IsQuiet form.recognize (some ';') rest further) :
    IsQuiet form.recognize before (accessor.text ++ rest) further := by
  have hkeyword := hkeywords accessor.keyword accessor.mem
  have hafter : ∀ {before : Option Char}, IsQuiet form.recognize before
      (accessor.keyword.toList ++ (accessor.after.text ++ ';' :: rest)) further := by
    intro before
    refine IsQuiet.append (isQuiet_of_not_mentions hform.opensWith hform.access ?_ ?_) ?_
    · refine mentions_of_isWord hkeyword.isWord (fun w hw heq => ?_) before
      have hsame : accessor.keyword = w := String.toList_inj.mp heq
      exact hother accessor.keyword accessor.mem (hsame ▸ hsub w hw)
    · rw [List.append_assoc, List.cons_append]
      exact forall_mem_head_blanks isWord_of_isBlank accessor.after.blank (by decide +kernel) _
    · exact isQuiet_blanks_append hform.opensWith hform.access accessor.after.blank
        (isQuiet_cons hform.opensWith hform.access (by decide +kernel) hrest)
  simp only [Accessor.text, List.append_assoc, List.cons_append, List.nil_append]
  apply isQuiet_blanks_append hform.opensWith hform.access accessor.before.blank
  cases accessor.access with
  | none => exact hafter
  | some access =>
      -- The access keyword may start a declaration, but none is recognized there.
      rw [accessText, List.append_assoc]
      refine IsQuiet.append (isQuiet_of_isWord ?_ ?_ _) ?_
      · exact (isIdentifier_accessKeywords language access.word access.mem).isWord
      · have hsemicolon : BreaksWith ';' (accessor.after.text ++ ';' :: (rest ++ further)) :=
          ⟨rfl, accessor.after.text, rest ++ further, accessor.after.blank, rfl⟩
        have hnone := access.recognize_eq_none hform hkeyword hsemicolon
        simpa only [List.append_assoc, List.cons_append] using hnone
      · exact isQuiet_blanks_append hform.opensWith hform.access access.gap.blank hafter

/-- An ending without access keywords in its stretches is quiet, whatever stands around it. -/
theorem Ending.isQuiet (hsub : ∀ w ∈ form.access, w ∈ language.accessKeywords)
    (e : Ending language) (hlacks : ∀ s ∈ e.stretches, mentions form.access none s.skeleton = false)
    {before : Option Char} {further : List Char} :
    IsQuiet form.recognize before (e.shown Stretch.skeleton) further := by
  have hopens := hform.opensWith
  have hwords := hform.access
  cases e with
  | field gap initializer =>
      apply isQuiet_blanks_append hopens hwords gap.blank
      exact isQuiet_initialized hopens hwords initializer fun s hs =>
        hlacks s (Option.mem_toList.mpr hs)
  | method gap parameters clauses body =>
      simp only [stretches, List.forall_mem_cons] at hlacks
      obtain ⟨hparameters, hclauses, hbody⟩ := hlacks
      apply isQuiet_blanks_append hopens hwords gap.blank
      apply isQuiet_cons hopens hwords (by decide +kernel)
      refine parameters.toStretch.isQuiet hopens hwords hparameters (by decide +kernel)
        (by decide +kernel) ?_
      exact clauses.isQuiet hopens hwords hclauses
        (fun s hs => hbody s (Option.mem_toList.mpr hs)) (by decide +kernel)
  | property hcsharp accessors initializer =>
      simp only [shown, Accessors.text, List.append_assoc, List.cons_append, List.nil_append]
      have hother : ∀ w ∈ ["get", "set", "init"], w ∉ language.accessKeywords := by
        cases language <;> decide
      apply isQuiet_blanks_append hopens hwords accessors.before.blank
      apply isQuiet_cons hopens hwords (by decide +kernel)
      refine accessors.getter.isQuiet hform hsub (by decide) (fun w hw => hother w ?_) ?_
      · exact List.mem_cons.mpr (.inl (List.mem_singleton.mp hw))
      refine accessors.setter.isQuiet hform hsub (by decide) (fun w hw => hother w ?_) ?_
      · exact List.mem_cons_of_mem _ hw
      apply isQuiet_blanks_append hopens hwords accessors.after.blank
      apply isQuiet_cons hopens hwords (by decide +kernel)
      rcases initializer with _ | ⟨gap, s⟩
      · exact isQuiet_nil
      · apply isQuiet_blanks_append hopens hwords gap.blank
        exact isQuiet_initialized hopens hwords (some s) fun t ht =>
          hlacks t (by simpa [stretches] using ht.symm)

end Endings

end ClassDiagram.Printed
