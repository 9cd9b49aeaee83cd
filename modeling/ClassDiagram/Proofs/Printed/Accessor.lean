import ClassDiagram.Proofs.Member.Typeless
import ClassDiagram.Proofs.Printed.Property

/-!
# What is found in a property

A property is found at its access keyword, up to the keyword of its first accessor. But an accessor
with several access words looks like a field that is declared without a type: if a semicolon or an
expression follows, it is found as a field as well.
-/

namespace ClassDiagram.Printed

open Text Source

variable {language : Language} {form : Member.Form} {ends : List Char}

/-! ## Accessors in which nothing is found -/

def AccessorBody.mark : AccessorBody language → Char
  | .semicolon => ';'
  | .expression _ => '='
  | .block _ => '{'

theorem AccessorText.breaksWith (a : AccessorText language) (rest : List Char) :
    BreaksWith a.body.mark (a.ending Stretch.skeleton ++ rest) := by
  obtain ⟨before, access, keyword, mem, gap, body⟩ := a
  cases body with
  | semicolon => exact ⟨rfl, gap.text, rest, gap.blank, List.append_assoc ..⟩
  | expression s => exact ⟨rfl, gap.text, _, gap.blank, List.append_assoc ..⟩
  | block b => exact ⟨rfl, gap.text, _, gap.blank, List.append_assoc ..⟩

theorem AccessorText.last (a : AccessorText language) (before : Option Char) :
    startsWord (lastOf before (a.shown Stretch.skeleton)) = true := by
  have hsemicolon : startsWord (some ';') = true := by decide +kernel
  have hbrace : startsWord (some '}') = true := by decide +kernel
  obtain ⟨_, access, keyword, mem, gap, body⟩ := a
  cases body with
  | semicolon => simpa [shown, bare, ending, AccessorBody.shown] using hsemicolon
  | expression s => simpa [shown, bare, ending, AccessorBody.shown] using hsemicolon
  | block b => simpa [shown, bare, ending, AccessorBody.shown] using hbrace

theorem unbroken_accessTexts (access : List (Access language)) : Unbroken (accessTexts access) := by
  intro c hc
  obtain ⟨a, _, hc⟩ := List.mem_flatMap.mp hc
  rcases List.mem_append.mp hc with hc | hc
  · exact endsArguments_of_isWord
      ((isIdentifier_accessKeywords language a.word a.mem).isWord c hc)
  · exact endsArguments_of_isBlank (a.gap.blank c hc)

section Quiet

variable (hform : form.Breaks ends) (haccess : form.access = language.accessKeywords)
  (a : AccessorText language) {before : Option Char} {further : List Char}

include hform haccess

/-- Behind the keyword of an accessor nothing is found. -/
theorem AccessorText.isQuiet_ending :
    IsQuiet form.recognize before (a.ending Stretch.skeleton) further := by
  have hopens := hform.opensWith
  have hwords := hform.access
  apply isQuiet_blanks_append hopens hwords a.gap.blank
  cases a.body with
  | semicolon => exact isQuiet_cons hopens hwords (by decide +kernel) isQuiet_nil
  | expression s =>
      refine isQuiet_cons hopens hwords (by decide +kernel)
        (isQuiet_cons hopens hwords (by decide +kernel) ?_)
      exact s.toStretch.isQuiet hopens hwords (haccess ▸ s.quiet) (by decide +kernel)
        (by decide +kernel) isQuiet_nil
  | block b =>
      refine isQuiet_cons hopens hwords (by decide +kernel) ?_
      exact b.toStretch.isQuiet hopens hwords (haccess ▸ b.quiet) (by decide +kernel)
        (by decide +kernel) isQuiet_nil

/-- Nothing is found in an accessor if nothing is found at its access words. -/
theorem AccessorText.isQuiet (hnone : ∀ x back, x :: back <:+ a.access →
      form.recognize (x.word.toList ++ (x.gap.text ++ (accessTexts back ++
        (a.keyword.toList ++ (a.ending Stretch.skeleton ++ further))))) = none) :
    IsQuiet form.recognize before (a.shown Stretch.skeleton) further := by
  have hopens := hform.opensWith
  have hwords := hform.access
  have hkeyword := isIdentifier_accessor a.keyword a.mem
  have hending : ∀ before, IsQuiet form.recognize before
      (a.keyword.toList ++ a.ending Stretch.skeleton) further := by
    intro before
    refine IsQuiet.append (isQuiet_of_not_mentions hopens hwords ?_
      (a.breaksWith further).startsWithBreak.head) (a.isQuiet_ending hform haccess)
    refine mentions_of_isWord hkeyword.isWord (fun w hw heq => ?_) before
    rw [haccess, ← String.toList_inj.mp heq] at hw
    exact (prefixFree_accessor language a.keyword a.mem).2 hw
  apply isQuiet_blanks_append hopens hwords a.before.blank
  rw [bare]
  -- At each access word the rest of the accessor follows, and so does what is behind it.
  generalize lastOf before a.before.text = before
  revert hnone
  generalize a.access = access
  intro hnone
  induction access generalizing before with
  | nil => exact hending before
  | cons x access ih =>
      rw [accessTexts, List.flatMap_cons, List.append_assoc, List.append_assoc]
      refine IsQuiet.append (isQuiet_of_isWord
        (isIdentifier_accessKeywords language x.word x.mem).isWord ?_ _)
        (isQuiet_blanks_append hopens hwords x.gap.blank (ih _ fun y back hback =>
          hnone y back (hback.trans (List.suffix_cons x access))))
      simpa [accessTexts] using hnone x access (List.suffix_refl _)

/-- A form that asks for another mark finds nothing in an accessor. -/
theorem AccessorText.isQuiet_of_mark (hmark : a.body.mark ∉ ends) :
    IsQuiet form.recognize before (a.shown Stretch.skeleton) further := by
  refine a.isQuiet hform haccess fun x back _ => ?_
  cases hread : form.recognize (x.word.toList ++ (x.gap.text ++ (accessTexts back ++
      (a.keyword.toList ++ (a.ending Stretch.skeleton ++ further))))) with
  | none => rfl
  | some p =>
      obtain ⟨d, hd, hfind⟩ := hform.find? hread
      rw [find?_unbroken_append (unbroken_of_isWord
          (isIdentifier_accessKeywords language x.word x.mem).isWord),
        find?_unbroken_append (unbroken_of_forall_isBlank x.gap.blank),
        find?_unbroken_append (unbroken_accessTexts back),
        find?_unbroken_append (unbroken_of_isWord (isIdentifier_accessor a.keyword a.mem).isWord),
        (a.breaksWith further).find?] at hfind
      obtain rfl := Option.some.inj hfind
      exact absurd hd hmark

/-- In an accessor with one access word at most, nothing is found. -/
theorem AccessorText.isQuiet_of_length_le (hlength : a.access.length ≤ 1) :
    IsQuiet form.recognize before (a.shown Stretch.skeleton) further := by
  refine a.isQuiet hform haccess fun x back hsuffix => ?_
  have hback : back = [] := by
    have hle := hsuffix.length_le
    rw [List.length_cons] at hle
    exact List.eq_nil_of_length_eq_zero (by omega)
  subst hback
  exact x.recognize_eq_none hform (isIdentifier_accessor a.keyword a.mem) (a.breaksWith further)

end Quiet

/-! ## Blocks are no accessor lists -/

theorem accessWords_eq_or_startsWith (keywords : List String) (cs : List Char) :
    accessWords keywords cs = ([], cs) ∨ startsWithWord keywords cs = true := by
  cases hword : Reader.word keywords cs with
  | none => exact .inl (accessWords_of_no_word hword)
  | some parts =>
      obtain ⟨w, after⟩ := parts
      obtain ⟨v, hv, rfl, rfl⟩ := Reader.word_eq_some hword
      cases hgap : blanks? after with
      | none =>
          refine .inl ?_
          rw [accessWords]
          split
          next => rfl
          next w' after' hw' =>
            obtain ⟨rfl, rfl⟩ := Prod.mk.inj (Option.some.inj (hword.symm.trans hw'))
            split
            next => rfl
            next hsome => rw [hgap] at hsome; exact absurd hsome (by simp)
      | some parts =>
          obtain ⟨rfl, hne, hblank⟩ := blanks?_eq_some hgap
          refine .inr (startsWithWord_iff.mpr ⟨v, hv, _, rfl, endsWord_iff.mpr ?_⟩)
          exact forall_mem_head_gap isWord_of_isBlank hne hblank _

/-- The text behind the brace of an accessor list starts with an access keyword or the keyword of an
accessor. -/
theorem startsWithWord_of_propertyTail {access : List String} {gap rest t : List Char}
    {i : Option (List Char)} (hgap : ∀ c ∈ gap, isBlank c = true)
    (h : Member.propertyTail access (gap ++ '{' :: rest) = some (t, i)) :
    startsWithWord access (rest.dropWhile isBlank) = true ∨
      startsWithWord ["get", "set", "init"] (rest.dropWhile isBlank) = true := by
  obtain ⟨⟨_, _⟩, hread, _⟩ := Option.map_eq_some_iff.mp h
  obtain ⟨_, afterGap, _, hfirst, hread, _⟩ := Reader.sequence_cons_eq_some hread
  rw [Reader.gap_append hgap (forall_mem_head_cons (by decide) rest)] at hfirst
  obtain ⟨_, rfl⟩ := Prod.mk.inj (Option.some.inj hfirst)
  obtain ⟨_, afterBrace, _, hbrace, hread, _⟩ := Reader.sequence_cons_eq_some hread
  obtain ⟨_, hbrace⟩ := Reader.char_eq_some hbrace
  obtain ⟨_, rfl⟩ := List.cons.inj hbrace
  obtain ⟨_, afterBlanks, _, hblanks, hread, _⟩ := Reader.sequence_cons_eq_some hread
  obtain ⟨_, rfl⟩ := Prod.mk.inj (Option.some.inj hblanks)
  obtain ⟨_, afterAccess, _, haccess, hread, _⟩ := Reader.sequence_cons_eq_some hread
  rcases accessWords_eq_or_startsWith access (rest.dropWhile isBlank) with hnone | hstarts
  · rw [hnone] at haccess
    obtain ⟨_, rfl⟩ := Prod.mk.inj (Option.some.inj haccess)
    obtain ⟨_, afterWord, _, hword, hread, _⟩ := Reader.sequence_cons_eq_some hread
    obtain ⟨_, _, _, hend, _⟩ := Reader.sequence_cons_eq_some hread
    obtain ⟨w, hw, rfl, hparts⟩ := Reader.word_eq_some hword
    refine .inr (startsWithWord_iff.mpr ⟨w, hw, afterWord, hparts, ?_⟩)
    rw [Reader.wordEnd] at hend
    split at hend
    next hends => exact hends
    next => exact absurd hend (by simp)
  · exact .inl hstarts

/-- Behind the brace of a block there is neither of them. -/
theorem Block.propertyTail_eq_none (b : Block language) {gap : List Char}
    (hgap : ∀ c ∈ gap, isBlank c = true) (rest : List Char) :
    Member.propertyTail language.accessKeywords
      (gap ++ '{' :: (b.skeleton ++ '}' :: rest)) = none := by
  cases hread : Member.propertyTail language.accessKeywords
      (gap ++ '{' :: (b.skeleton ++ '}' :: rest)) with
  | none => rfl
  | some parts =>
      have hdrop : (b.skeleton ++ '}' :: rest).dropWhile isBlank =
          b.skeleton.dropWhile isBlank ++ '}' :: rest := by
        rw [List.dropWhile_append]
        split
        next hnil => rw [List.isEmpty_iff.mp hnil]; rfl
        next => rfl
      have hhead : ∀ c ∈ ('}' :: rest).head?, isWord c = false :=
        forall_mem_head_cons (by decide +kernel) rest
      rcases startsWithWord_of_propertyTail hgap hread with hstarts | hstarts
      · rw [hdrop] at hstarts
        have hstands :=
          startsWithWord_of_append (isIdentifier_accessKeywords language) hhead hstarts
        obtain ⟨hparts, hblank⟩ := takeWhile_append_dropWhile_isBlank b.skeleton
        have hplace : IsPlace b.skeleton (b.skeleton.takeWhile isBlank)
            (b.skeleton.dropWhile isBlank) := by
          refine ⟨hparts, fun hnil => ?_⟩
          obtain ⟨w, hw, _, hempty, _⟩ := startsWithWord_iff.mp (hnil ▸ hstands)
          exact (isIdentifier_accessKeywords language w hw).ne_nil
            (List.append_eq_nil_iff.mp hempty.symm).1
        rw [mentions_eq_false b.quiet hplace (startsWord_lastOf_blanks rfl hblank)] at hstands
        exact absurd hstands Bool.false_ne_true
      · rw [hdrop] at hstarts
        have hstands := startsWithWord_of_append isIdentifier_accessor hhead hstarts
        rw [b.first] at hstands
        exact absurd hstands Bool.false_ne_true

/-- As a property nothing is found in an accessor. -/
theorem AccessorText.isQuiet_propertyForm (a : AccessorText language) {before : Option Char}
    {further : List Char} :
    IsQuiet (Member.propertyForm language).recognize before (a.shown Stretch.skeleton) further := by
  have hform := Member.propertyForm_breaks language
  cases hbody : a.body with
  | semicolon => exact a.isQuiet_of_mark hform rfl (by simp [hbody, AccessorBody.mark])
  | expression s => exact a.isQuiet_of_mark hform rfl (by simp [hbody, AccessorBody.mark])
  | block b =>
      refine a.isQuiet hform rfl fun x back _ => ?_
      have hending : a.ending Stretch.skeleton ++ further =
          a.gap.text ++ '{' :: (b.skeleton ++ '}' :: further) := by
        simp [ending, hbody, AccessorBody.shown]
      cases hread : (Member.propertyForm language).recognize (x.word.toList ++ (x.gap.text ++
          (accessTexts back ++ (a.keyword.toList ++ (a.ending Stretch.skeleton ++ further))))) with
      | none => rfl
      | some p =>
          obtain ⟨afterName, hparts, htail⟩ := hform.exists_afterName hread
          obtain ⟨w, hw, haccess⟩ := Member.Form.exists_access hread
          obtain ⟨d, gap, rest, hbreaks, hgap, rfl⟩ :=
            (Member.propertyForm_isTyped language).tail htail
          -- The brace in the accessor is the one that the accessor list would open with.
          have hfront : Unbroken (x.word.toList ++ (x.gap.text ++ (accessTexts back ++
              (a.keyword.toList ++ a.gap.text)))) :=
            (unbroken_of_isWord (isIdentifier_accessKeywords language x.word x.mem).isWord).append
              ((unbroken_of_forall_isBlank x.gap.blank).append ((unbroken_accessTexts back).append
                ((unbroken_of_isWord (isIdentifier_accessor a.keyword a.mem).isWord).append
                  (unbroken_of_forall_isBlank a.gap.blank))))
          have hread : Unbroken (p.access ++ (p.declarator ++ gap)) :=
            (haccess ▸ unbroken_of_isWord (hform.access w hw).isWord).append
              ((hform.unbroken_declarator hread).append (unbroken_of_forall_isBlank hgap))
          obtain ⟨_, hbrace⟩ := append_inj_of_unbroken (c := '{') hfront hread (by decide)
            hbreaks (by simpa [hending] using hparts)
          rw [← hbrace] at htail
          exact absurd ((b.propertyTail_eq_none hgap further).symm.trans htail) (by simp)

/-! ## Accessors that are found as fields -/

/-- The part of an accessor behind its keyword that a field is found with. -/
def AccessorBody.fieldTail? : AccessorBody language → Option (List Char × Option (List Char))
  | .semicolon => some ([';'], none)
  | .expression s => some ('=' :: '>' :: (s.toStretch.untilSemicolon ++ [';']),
      some ('>' :: s.toStretch.untilSemicolon))
  | .block _ => none

/-- What an accessor is found as among the fields: its last access word is taken for a type. -/
def AccessorText.fieldPhrase? (a : AccessorText language) : Option Member.Phrase :=
  match a.access, a.body.fieldTail? with
  | first :: second :: others, some (tail, initializer) =>
    let last := (second :: others).getLast (List.cons_ne_nil _ _)
    some ⟨first.word.toList, first.gap.text ++ accessTexts (second :: others).dropLast,
      last.word.toList, last.gap.text, a.keyword.toList, a.gap.text ++ tail, initializer⟩
  | _, _ => none

theorem AccessorBody.exists_after {body : AccessorBody language} {tail : List Char}
    {initializer : Option (List Char)} (h : body.fieldTail? = some (tail, initializer)) :
    ∃ after, body.shown Stretch.skeleton = tail ++ after ∧
      ∀ {gap : List Char}, (∀ c ∈ gap, isBlank c = true) → ∀ further,
        Member.fieldTail (gap ++ (tail ++ further)) = some (gap ++ tail, initializer) := by
  cases body with
  | semicolon =>
      obtain ⟨rfl, rfl⟩ := Prod.mk.inj (Option.some.inj h)
      exact ⟨[], rfl, fun hgap further => Member.fieldTail_semicolon hgap further⟩
  | expression s =>
      obtain ⟨rfl, rfl⟩ := Prod.mk.inj (Option.some.inj h)
      obtain ⟨huntil, after, hafter⟩ := s.toStretch.exists_afterSemicolon
      refine ⟨after, ?_, fun hgap further => ?_⟩
      · simp [shown, hafter]
      · have htail := Member.fieldTail_initializer hgap
          (List.forall_mem_cons.mpr ⟨(by decide : decide ('>' ≠ ';') = true), huntil⟩) further
        simpa using htail
  | block b => exact absurd h (by simp [fieldTail?])

theorem accessKeywords_subset_modifiers (language : Language) :
    ∀ w ∈ language.accessKeywords, w ∈ Language.modifiers := by
  cases language <;> decide

theorem isLead_accessTexts (gap : Gap) (access : List (Access language)) :
    IsLead Language.modifiers (access.map (·.word)) (gap.text ++ accessTexts access) := by
  induction access generalizing gap with
  | nil =>
      rw [accessTexts, List.flatMap_nil, List.append_nil]
      exact .gap gap.ne_nil gap.blank
  | cons x access ih =>
      rw [accessTexts, List.flatMap_cons, List.append_assoc]
      exact .modifier gap.ne_nil gap.blank (accessKeywords_subset_modifiers language x.word x.mem)
        (ih x.gap)

/-- The keyword of an accessor is no modifier. -/
theorem endsLead_accessor {w : String} (hw : w ∈ ["get", "set", "init"]) (rest : List Char) :
    EndsLead Language.modifiers (w.toList ++ rest) := by
  have hfree : ∀ w ∈ ["get", "set", "init"],
      PrefixFree (w :: Language.modifiers) ∧ w ∉ Language.modifiers := by decide +kernel
  refine ⟨fun c hc => isBlank_of_isWord ((isIdentifier_accessor w hw).head rest c hc),
    fun v after hv => ?_⟩
  rw [Reader.word_append_eq_none (hfree w hw).1 (hfree w hw).2] at hv
  exact absurd hv (by simp)

theorem accessTexts_cons (x : Access language) (access : List (Access language)) :
    accessTexts (x :: access) = x.word.toList ++ (x.gap.text ++ accessTexts access) := by
  rw [accessTexts, List.flatMap_cons, List.append_assoc]
  rfl

theorem accessTexts_getLast {access : List (Access language)} (hne : access ≠ []) :
    accessTexts access = accessTexts access.dropLast ++
      ((access.getLast hne).word.toList ++ (access.getLast hne).gap.text) := by
  conv => lhs; rw [← List.dropLast_append_getLast hne]
  simp [accessTexts]

/-- An accessor that is found as a field is read from its first access word to the first semicolon.
-/
theorem AccessorText.exists_after_of_fieldPhrase? {a : AccessorText language} {p : Member.Phrase}
    (h : a.fieldPhrase? = some p) : ∃ after, a.bare Stretch.skeleton = p.text ++ after ∧
      p.text ≠ [] ∧ ∀ further,
        (Member.fieldForm language).recognize (p.text ++ (after ++ further)) = some p ∧
        ∀ before, IsQuiet (Member.fieldForm language).recognize (lastOf before p.text) after
          further := by
  have hform := Member.fieldForm_breaks language
  rw [fieldPhrase?] at h
  split at h
  next first second others tail initializer haccess htail =>
    obtain ⟨after, hbody, hread⟩ := AccessorBody.exists_after htail
    have hlast := accessTexts_getLast (List.cons_ne_nil second others)
    generalize (second :: others).getLast _ = last at hlast h
    obtain rfl := Option.some.inj h
    have hending : a.ending Stretch.skeleton = (a.gap.text ++ tail) ++ after := by
      simp [ending, hbody]
    refine ⟨after, ?_, ?_, fun further => ⟨?_, fun before => ?_⟩⟩
    · simp [bare, haccess, accessTexts_cons first, hlast, hending, Member.Phrase.text,
        Member.Phrase.declarator]
    · simp [Member.Phrase.text, (isIdentifier_accessKeywords language _ first.mem).ne_nil]
    · have hends := a.breaksWith further
      rw [hending, List.append_assoc] at hends
      simp only [Member.Phrase.text, Member.Phrase.declarator, List.append_assoc]
      have hphrase := (Member.fieldForm_isTyped language).recognize_typeless first.mem
        (isLead_accessTexts first.gap (second :: others).dropLast)
        (accessKeywords_subset_modifiers language last.word last.mem) last.gap.ne_nil last.gap.blank
        (isIdentifier_accessor a.keyword a.mem) (endsLead_accessor a.mem _) hends.startsWithBreak
        (by rw [List.append_assoc]; exact hread a.gap.blank _)
      simpa using hphrase
    · rw [Member.Phrase.text, lastOf_append]
      apply IsQuiet.of_append
      rw [← hending]
      exact a.isQuiet_ending hform rfl
  next => exact absurd h (by simp)

/-- In the other accessors no field is found. -/
theorem AccessorText.isQuiet_fieldForm {a : AccessorText language} (h : a.fieldPhrase? = none)
    {before : Option Char} {further : List Char} :
    IsQuiet (Member.fieldForm language).recognize before (a.shown Stretch.skeleton) further := by
  have hform := Member.fieldForm_breaks language
  have hlength : ∀ parts, a.body.fieldTail? = some parts → a.access.length ≤ 1 := by
    intro parts htail
    rw [fieldPhrase?, htail] at h
    rcases haccess : a.access with _ | ⟨first, _ | ⟨second, others⟩⟩
    · exact Nat.zero_le _
    · exact Nat.le_refl _
    · rw [haccess] at h
      exact absurd h (by simp)
  cases hbody : a.body with
  | semicolon => exact a.isQuiet_of_length_le hform rfl (hlength _ (by rw [hbody]; rfl))
  | expression s => exact a.isQuiet_of_length_le hform rfl (hlength _ (by rw [hbody]; rfl))
  | block b => exact a.isQuiet_of_mark hform rfl (by simp [hbody, AccessorBody.mark])

/-- What is found in an accessor among the fields. -/
theorem AccessorText.yields_fieldForm (a : AccessorText language) {before : Option Char}
    (hbefore : startsWord before = true) (offset : Nat) (further : List Char) :
    Yields (Member.fieldForm language).recognize (·.text.length) before offset
      (a.shown Stretch.skeleton) further
      (a.fieldPhrase?.map (offset + byteLength a.before.text, ·)).toList := by
  cases hphrase : a.fieldPhrase? with
  | none => exact (AccessorText.isQuiet_fieldForm hphrase).yields
  | some p =>
      obtain ⟨after, hbare, hne, hafter⟩ := AccessorText.exists_after_of_fieldPhrase? hphrase
      obtain ⟨hread, hquiet⟩ := hafter further
      rw [shown, hbare]
      exact (isQuiet_blanks (Member.fieldForm_breaks language) a.before.blank _ _).yields.append
        ((Yields.phrase (startsWord_lastOf_blanks hbefore a.before.blank) hne hread rfl).append
          (hquiet _).yields)

/-- The field that an accessor is found as has the words of the accessor. -/
theorem AccessorText.parts_of_fieldPhrase? {a : AccessorText language} {p : Member.Phrase}
    (h : a.fieldPhrase? = some p) : ∃ first second others, a.access = first :: second :: others ∧
      p.access = first.word.toList ∧ p.name = a.keyword.toList ∧
      words p.declarator = (second :: others).map (·.word.toList) ++ [a.keyword.toList] ∧
      ∀ view, a.bare view = p.access ++ (p.declarator ++ a.ending view) := by
  rw [fieldPhrase?] at h
  split at h
  next first second others tail initializer haccess htail =>
    have hlast := accessTexts_getLast (List.cons_ne_nil second others)
    generalize (second :: others).getLast _ = last at hlast h
    obtain rfl := Option.some.inj h
    have hdeclarator : ∀ name, first.gap.text ++ accessTexts (second :: others).dropLast ++
        last.word.toList ++ last.gap.text ++ name =
          first.gap.text ++ accessTexts (second :: others) ++ name := by
      intro name
      simp [hlast]
    have hkeyword := isIdentifier_accessor a.keyword a.mem
    refine ⟨first, second, others, haccess, rfl, rfl, ?_, fun view => ?_⟩
    · rw [Member.Phrase.declarator, hdeclarator,
        (isLead_accessTexts first.gap _).words_append isIdentifier_modifiers,
        words_of_forall_not_blank hkeyword.ne_nil
          fun c hc => isBlank_of_isWord (hkeyword.isWord c hc), List.map_map]
      rfl
    · rw [Member.Phrase.declarator, hdeclarator, bare, haccess, accessTexts_cons]
      simp
  next => exact absurd h (by simp)

end ClassDiagram.Printed
