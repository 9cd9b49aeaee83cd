import ClassDiagram.Proofs.Printed.Held

/-!
# Properties that hold a plainly named type

A property without accessor bodies holds its type if the type is an identifier. The properties found
as holders in the body of a class are exactly these. A property may have an initializer behind its
accessors, and nothing else that follows the accessors is taken for one.
-/

namespace ClassDiagram.Printed

open Text Source

variable {language : Language}

/-! ## Reading accessors -/

/-- The readers that an accessor is read with, in front of further ones. -/
def accessorReaders (language : Language) (keywords : List String) (further : List Reader) :
    List Reader :=
  .gap :: (fun cs => some (accessWords language.accessKeywords cs)) :: .word keywords :: .gap ::
    .char ';' :: further

theorem Accessor.sequence_append {keywords : List String} (hfree : PrefixFree keywords)
    (hsub : ∀ w ∈ keywords, w ∈ ["get", "set", "init"]) (accessor : Accessor language keywords)
    {further : List Reader} {cs b rest : List Char}
    (h : Reader.sequence further cs = some (b, rest)) :
    Reader.sequence (accessorReaders language keywords further) (accessor.text ++ cs) =
      some (accessor.text ++ b, rest) := by
  obtain ⟨before, access, w, hmem, after⟩ := accessor
  have hw := hsub w hmem
  let words : Reader := fun cs => some (accessWords language.accessKeywords cs)
  have haccess : words (accessText access ++ (w.toList ++ (after.text ++ ';' :: cs))) =
      some (accessText access, w.toList ++ (after.text ++ ';' :: cs)) := by
    simp only [words, ← accessTexts_toList, accessWords_accessor access.toList hw]
  have hread := Reader.sequence_cons
    (Reader.gap_append before.blank (accessTexts_toList access ▸
      head_accessTexts access.toList hw (after.text ++ ';' :: cs)))
    (Reader.sequence_cons (r := words) haccess
      (Reader.sequence_cons (Reader.word_append hfree hmem _)
        (Reader.sequence_cons
          (Reader.gap_append after.blank (forall_mem_head_cons (c := ';') (by decide) cs))
          (Reader.sequence_cons (Reader.char_cons ';' cs) h))))
  simpa [accessorReaders, words, Accessor.text] using hread

/-- An accessor list is read up to its closing brace. -/
theorem Accessors.autoAccessors_append (accessors : Accessors language) (rest : List Char) :
    Member.autoAccessors language.accessKeywords (accessors.text ++ rest) =
      some (accessors.text, rest) := by
  have hclosing := Reader.sequence_cons
    (Reader.gap_append accessors.after.blank (forall_mem_head_cons (c := '}') (by decide) rest))
    (Reader.sequence_singleton (Reader.char_cons '}' rest))
  have hsetter := accessors.setter.sequence_append (by decide) (by decide) hclosing
  have hgetter := accessors.getter.sequence_append (by decide) (by decide) hsetter
  have hread := Reader.sequence_cons
    (Reader.gap_append accessors.before.blank (forall_mem_head_cons (c := '{') (by decide) _))
    (Reader.sequence_cons (Reader.char_cons '{' _) hgetter)
  simpa [Accessors.text, Member.autoAccessors, accessorReaders] using hread

/-- Without an initializer behind it, an accessor list is the whole tail of a property. -/
theorem Accessors.autoPropertyTail_append (accessors : Accessors language) {rest : List Char}
    (hrest : Follows rest) :
    Member.autoPropertyTail language.accessKeywords (accessors.text ++ rest) =
      some (accessors.text, none) := by
  have hnone : Member.initializer? (blanks rest).2 = none := by
    rw [blanks]
    cases hdrop : rest.dropWhile isBlank with
    | nil => rfl
    | cons c cs =>
        have hne : c ≠ '=' := hrest c (by rw [hdrop]; rfl)
        unfold Member.initializer?
        split
        next heq => exact absurd (List.cons.inj heq).1 hne
        next => rfl
  simp only [Member.autoPropertyTail, accessors.autoAccessors_append, Option.bind_eq_bind,
    Option.bind_some, hnone]

theorem Accessors.autoPropertyTail_initializer (accessors : Accessors language) (gap : Blanks)
    {initializer : List Char} (hinitializer : ∀ c ∈ initializer, decide (c ≠ ';') = true)
    (rest : List Char) :
    Member.autoPropertyTail language.accessKeywords
        (accessors.text ++ (gap.text ++ '=' :: (initializer ++ ';' :: rest))) =
      some (accessors.text ++ (gap.text ++ '=' :: (initializer ++ [';'])), some initializer) := by
  have hblanks := blanks_append gap.blank
    (forall_mem_head_cons (c := '=') (by decide) (initializer ++ ';' :: rest))
  have hread := Member.initializer?_append hinitializer rest
  simp only [Member.autoPropertyTail, accessors.autoAccessors_append, Option.bind_eq_bind,
    Option.bind_some, hblanks, hread, List.append_assoc, List.cons_append]

/-! ## Properties as holders -/

/-- What a property is recognized with as a holder of its type. -/
def Member.heldPropertyPhrase? (m : Member language) : Option Member.Phrase :=
  match m.ending with
  | .property _ accessors none => some (m.declarator.phrase accessors.text none)
  | .property _ accessors (some (gap, s)) =>
    some (m.declarator.phrase (accessors.text ++
      (gap.text ++ '=' :: (s.untilSemicolon ++ [';']))) s.untilSemicolon)
  | _ => none

theorem finds_autoPropertyForm {m : Member language} (hlacks : m.Lacks language.accessKeywords)
    (hplain : ∀ modifier ∈ m.declarator.modifiers, modifier.word ∉ language.accessKeywords) :
    Finds (Member.autoPropertyForm language) m
      (if IsIdentifier m.declarator.type.text then m.heldPropertyPhrase? else none) := by
  have hform := Member.autoPropertyForm_breaks language
  have hbare := Member.autoPropertyForm_isBare language
  split
  next htype =>
    have hread := Declarator.isReadBy_bare hbare (prefixFree_accessKeywords language)
      prefixFree_modifiers (fun _ hw => hw) m.declarator.access_mem (fun m _ => m.mem) htype
    obtain ⟨leading, d, ending⟩ := m
    cases ending with
    | field gap initializer =>
        refine .of_mark hform (fun _ hw => hw) hlacks ?_
        cases initializer <;> simp [Ending.mark]
    | method gap parameters clauses body =>
        exact .of_mark hform (fun _ hw => hw) hlacks (by simp [Ending.mark])
    | property hcsharp accessors initializer =>
        rcases initializer with _ | ⟨gap, s⟩
        · exact .of_isReadBy hform (fun _ hw => hw) hlacks hread [] rfl fun further hfurther =>
            accessors.autoPropertyTail_append hfurther
        · obtain ⟨huntil, after, hafter⟩ := s.exists_afterSemicolon
          refine .of_isReadBy hform (fun _ hw => hw) hlacks hread after ?_ fun further _ => ?_
          · simp [Ending.shown, appended, hafter]
          · have htail := accessors.autoPropertyTail_initializer gap huntil (after ++ further)
            simpa [Member.autoPropertyForm] using htail
  next htype =>
    refine .nothing fun before further => ?_
    have hbreaks := m.ending.breaksWith Stretch.skeleton further
    have hnone : (Member.autoPropertyForm language).recognize
        (m.declarator.text ++ (m.ending.shown Stretch.skeleton ++ further)) = none := by
      cases hread : (Member.autoPropertyForm language).recognize
          (m.declarator.text ++ (m.ending.shown Stretch.skeleton ++ further)) with
      | none => rfl
      | some p => exact absurd (Declarator.bare_of_recognize hbare hbreaks hread).2.2 htype
    have hsub : ∀ w ∈ (Member.autoPropertyForm language).access, w ∈ Language.modifiers := by
      cases language <;> decide
    exact (Declarator.isQuiet_of_recognize_eq_none hform hsub hplain hbreaks hnone before).append
      (m.ending.isQuiet hform (fun _ hw => hw) hlacks)

def Member.propertyHolder? (m : Member language) (offset : Nat) : Option Holder :=
  match m.ending with
  | .property _ _ initializer =>
    if IsIdentifier m.declarator.type.text then
      some ⟨offset, String.ofList m.declarator.type.text,
        (constructedBy? (initializer.map (·.2))).map String.ofList⟩
    else none
  | _ => none

/-- The properties of a class that hold their types, in order. -/
theorem Class.holder_autoPropertiesWith (c : Class language) (heading : Heading)
    (hlacks : ∀ m ∈ c.members, m.Lacks language.accessKeywords)
    (hplain : ∀ m ∈ c.members, ∀ modifier ∈ m.declarator.modifiers,
      modifier.word ∉ language.accessKeywords) :
    Holder.autoProperties language (Masked.ofSource (c.textWith heading)).skeleton
        (c.declarationWith heading).body =
      (placed 0 c.members).filterMap fun (o, m) =>
        m.propertyHolder? ((c.declarationWith heading).body.start + o) := by
  rw [Holder.autoProperties, c.within_bodyWith heading (Member.autoPropertyForm_breaks language)
    fun m hm => finds_autoPropertyForm (hlacks m hm) (hplain m hm), List.map_filterMap]
  apply List.filterMap_congr
  rintro ⟨o, m⟩ _
  obtain ⟨leading, d, ending⟩ := m
  cases ending with
  | field gap initializer => simp [Member.heldPropertyPhrase?, Member.propertyHolder?]
  | method gap parameters clauses body =>
      simp [Member.heldPropertyPhrase?, Member.propertyHolder?]
  | property hcsharp accessors initializer =>
      dsimp only [Member.propertyHolder?]
      split
      next => rcases initializer with _ | ⟨gap, s⟩ <;> rfl
      next => rfl

end ClassDiagram.Printed
