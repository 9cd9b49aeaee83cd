import ClassDiagram.Member.Basic
import ClassDiagram.Proofs.Member.Place

/-!
# Declarations without a type

The modifiers of a declaration are given back last to first if no type follows them. So a field or
a property that is written without a type is read with the last of its modifiers as one. This is
the only way in which a modifier becomes a type.
-/

namespace ClassDiagram

open Text Source

namespace Member

/-- A form that asks for any modifiers and any type. -/
structure Form.IsTyped (form : Form) (language : Language) : Prop where
  access : form.access = language.accessKeywords
  leads : form.leads = Source.leads Language.modifiers
  types : form.types = Source.types
  tail : ∀ {cs t i}, form.tail cs = some (t, i) → StartsWithBreak cs

variable {language : Language} {form : Form}

theorem fieldForm_isTyped (language : Language) : (fieldForm language).IsTyped language :=
  ⟨rfl, rfl, rfl, startsWithBreak_fieldTail⟩

theorem propertyForm_isTyped (language : Language) : (propertyForm language).IsTyped language where
  access := rfl
  leads := rfl
  types := rfl
  tail h := by
    obtain ⟨⟨_, _⟩, hread, _⟩ := Option.map_eq_some_iff.mp h
    obtain ⟨gap, further, hgap, hparts⟩ := exists_gap_char hread
    exact ⟨'{', gap, further, rfl, hgap, hparts⟩

theorem Form.IsTyped.breaks (hform : form.IsTyped language) :
    form.Breaks [';', '{', '}', '(', ')', '='] where
  access := hform.access ▸ isIdentifier_accessKeywords language
  leads h := leads_breaks isIdentifier_modifiers (hform.leads ▸ h)
  types h := types_breaks (hform.types ▸ h)
  tail h := (hform.tail h).find?

/-! ## How a declaration without a type is read -/

/-- A single word in front of a break is not divided into a type and a name. -/
theorem no_name_behind_type {name ending type afterType gap afterGap further afterName : List Char}
    (hname : IsIdentifier name) (hbreak : StartsWithBreak ending)
    (htype : (type, afterType) ∈ types (name ++ ending))
    (hgap : Reader.space afterType = some (gap, afterGap))
    (hfurther : Reader.identifier afterGap = some (further, afterName)) : False := by
  obtain ⟨hparts, hunbroken, c, hc, hcblank⟩ := types_breaks htype
  obtain ⟨rfl, hne, hblank⟩ := blanks?_eq_some hgap
  obtain ⟨rfl, hident, _⟩ := Reader.named_eq_some hfurther
  obtain ⟨d, after, rest, hbreaks, hafter, rfl⟩ := hbreak
  have hnameWord : words (name ++ after) = [name] := words_append_blanks hname.ne_nil
    (fun c hc => isBlank_of_isWord (hname.isWord c hc)) hafter
  have htypeWords := List.length_pos_iff.mpr (words_ne_nil hc hcblank)
  obtain ⟨e, he⟩ := List.exists_mem_of_ne_nil _ hident.ne_nil
  have hfurtherWords := List.length_pos_iff.mpr (words_ne_nil
    (List.mem_append_left (afterName.takeWhile (!endsArguments ·)) he)
    (isBlank_of_isWord (IsIdentifier.isWord hident e he)))
  -- Up to the break, the same text would have one word and two.
  have hwords := congrArg (fun cs => (words (cs.takeWhile (!endsArguments ·))).length) hparts
  simp only [takeWhile_unbroken_append (unbroken_of_isWord hname.isWord),
    takeWhile_unbroken_append (unbroken_of_forall_isBlank hafter), List.takeWhile_cons, hbreaks,
    Bool.not_true, Bool.false_eq_true, if_false, List.append_nil, hnameWord, List.length_singleton,
    takeWhile_unbroken_append hunbroken,
    takeWhile_unbroken_append (unbroken_of_forall_isBlank hblank),
    takeWhile_unbroken_append (unbroken_of_isWord (IsIdentifier.isWord hident)),
    words_append_gap hne hblank, List.length_append] at hwords
  omega

/-- A declaration without a type is read with the last of its modifiers as one. -/
theorem Form.IsTyped.recognize_typeless (hform : form.IsTyped language) {w : String}
    (hw : w ∈ language.accessKeywords) {ws : List String} {lead : List Char}
    (hlead : IsLead Language.modifiers ws lead) {modifier : String}
    (hmodifier : modifier ∈ Language.modifiers) {gap name ending : List Char} (hne : gap ≠ [])
    (hgap : ∀ c ∈ gap, isBlank c = true) (hname : IsIdentifier name)
    (hends : EndsLead Language.modifiers (name ++ ending)) (hbreak : StartsWithBreak ending)
    {tail : List Char} {initializer : Option (List Char)}
    (htail : form.tail ending = some (tail, initializer)) :
    form.recognize
        (w.toList ++ (lead ++ (modifier.toList ++ (gap ++ (name ++ ending))))) =
      some ⟨w.toList, lead, modifier.toList, gap, name, tail, initializer⟩ := by
  obtain ⟨otherLeads, hsplits⟩ := leads_modifier prefixFree_modifiers isIdentifier_modifiers hlead
    hmodifier hne hgap hends
  -- With all modifiers in the lead no type is left, and the next split gives one of them back.
  have hnone : ∀ read : List Char × List Char → List Char × List Char → List Char × List Char →
      Option Phrase, ((Source.types (name ++ ending)).findSome? fun x =>
        (Reader.space x.2).bind fun gap => (Reader.identifier gap.2).bind (read x gap)) = none := by
    intro read
    rw [List.findSome?_eq_none_iff]
    intro x htype
    cases hspace : Reader.space x.2 with
    | none => rfl
    | some gap =>
        cases hfurther : Reader.identifier gap.2 with
        | none => simp [hfurther]
        | some _ => exact (no_name_behind_type hname hbreak htype hspace hfurther).elim
  have hmodifierIdent := isIdentifier_modifiers modifier hmodifier
  obtain ⟨otherTypes, hfirst⟩ := types_append hmodifierIdent.isType
    (endsType_gap_name hne hgap hname hbreak.not_mem_closing)
  have hspace : Reader.space (gap ++ (name ++ ending)) = some (gap, name ++ ending) :=
    blanks?_append hne hgap fun c hc => isBlank_of_isWord (hname.head ending c hc)
  have hident : Reader.identifier (name ++ ending) = some (name, ending) :=
    Reader.named_append hname hbreak.head
  rw [Form.recognize, hform.access, Reader.word_append (prefixFree_accessKeywords language) hw]
  simp only [Option.bind_eq_bind, Option.bind_some, hform.leads, hform.types, hsplits,
    List.findSome?_cons, hfirst, hspace, hident, htail, hnone]

/-! ## Modifiers as types -/

/-- A declaration at a byte offset is written without a type: between its access keyword and its
name stand modifiers only. -/
def IsTypeless (language : Language) (skeleton : List Char) (range : Span) (o : Nat)
    (name : String) : Prop :=
  ∃ front rest, ∃ w ∈ language.accessKeywords, ∃ ws : List String,
    slice skeleton range = front ++ (w.toList ++ rest) ∧ o = range.start + byteLength front ∧
      (∀ m ∈ ws, m ∈ Language.modifiers) ∧
      words (rest.takeWhile (!endsArguments ·)) = (ws ++ [name]).map String.toList

/-- A type that is a modifier when it is written with single spaces is one as it stands. -/
theorem IsType.mem_modifiers {type : List Char} (htype : IsType type)
    (h : String.ofList (normalizeBlanks type) ∈ Language.modifiers) :
    ∃ modifier ∈ Language.modifiers, type = modifier.toList := by
  have hmodifier := isIdentifier_modifiers _ h
  rw [String.toList_ofList] at hmodifier
  have hident : IsIdentifier type := htype.isIdentifier fun c hc hblank =>
    hmodifier.isWord c ((mem_normalizeBlanks_iff hblank).mpr hc)
  refine ⟨_, h, ?_⟩
  rw [String.toList_ofList, normalizeBlanks_of_not_blank hident.ne_nil fun c hc =>
    isBlank_of_isWord (hident.isWord c hc)]

/-- The words of a declaration up to its first break: modifiers, the words of the type and the name.
-/
theorem Form.IsTyped.exists_words (hform : form.IsTyped language) {skeleton : List Char}
    {range : Span} {o : Nat} {p : Phrase} (h : (o, p) ∈ form.within skeleton range) :
    IsType p.type ∧ ∃ front rest, ∃ w ∈ language.accessKeywords, ∃ ws : List String,
      slice skeleton range = front ++ (w.toList ++ rest) ∧ o = range.start + byteLength front ∧
      (∀ m ∈ ws, m ∈ Language.modifiers) ∧
      words (rest.takeWhile (!endsArguments ·)) =
        (ws.map String.toList ++ words p.type) ++ [p.name] := by
  obtain ⟨front, back, hslice, ho, hread⟩ := form.mem_within h
  obtain ⟨w, hw, rest, rfl, _, _, hwords⟩ := hform.breaks.words_of_recognize hform.tail hread
  obtain ⟨_, _, _, _, _, _, hlead, htype, _⟩ := Form.recognize_eq_some hread
  rw [hform.leads] at hlead
  rw [hform.types] at htype
  obtain ⟨_, ws, hws⟩ := mem_leads hlead
  refine ⟨isType_of_mem_types htype, front, rest, w, hform.access ▸ hw, ws, hslice, ho, hws.mem, ?_⟩
  rw [hwords, hws.words_append isIdentifier_modifiers]

/-- A modifier is the type of a declaration exactly if it is written without one. -/
theorem Form.IsTyped.type_mem_iff (hform : form.IsTyped language) {skeleton : List Char}
    {range : Span} {o : Nat} {p : Phrase} (h : (o, p) ∈ form.within skeleton range) :
    String.ofList (normalizeBlanks p.type) ∈ Language.modifiers ↔
      IsTypeless language skeleton range o (String.ofList p.name) := by
  obtain ⟨htype, front, rest, w, hw, ws, hslice, ho, hws, hwords⟩ := hform.exists_words h
  constructor
  · intro hmem
    obtain ⟨modifier, hmodifier, htypeEq⟩ := IsType.mem_modifiers htype hmem
    have hident := isIdentifier_modifiers modifier hmodifier
    refine ⟨front, rest, w, hw, ws ++ [modifier], hslice, ho, fun m hm => ?_, ?_⟩
    · rcases List.mem_append.mp hm with hm | hm
      · exact hws m hm
      · exact List.mem_singleton.mp hm ▸ hmodifier
    · rw [hwords, htypeEq,
        words_of_forall_not_blank hident.ne_nil fun c hc => isBlank_of_isWord (hident.isWord c hc)]
      simp
  · rintro ⟨front', rest', w', hw', ws', hslice', ho', hws', hwords'⟩
    -- The offset tells the place, and the place the access keyword.
    have hplace : front ++ (w.toList ++ rest) = front' ++ (w'.toList ++ rest') := by
      rw [← hslice, hslice']
    obtain ⟨rfl, hback⟩ := append_inj_of_byteLength hplace (by omega)
    obtain rfl : w = w' := PrefixFree.eq_of_prefix (prefixFree_accessKeywords language) hw hw'
      (List.prefix_append _ rest) (by rw [hback]; exact List.prefix_append _ _)
    obtain rfl := List.append_cancel_left hback
    rw [hwords', List.map_append] at hwords
    obtain ⟨hspecifiers, _⟩ := List.append_inj' hwords rfl
    -- The type has a word at least, and so the last of the modifiers is the type.
    obtain ⟨ws', modifier, rfl⟩ : ∃ before modifier, ws' = before ++ [modifier] := by
      obtain ⟨before, modifier, hparts⟩ := List.eq_nil_or_concat ws' |>.resolve_left fun hnil => by
        rw [hnil] at hspecifiers
        exact htype.words_ne_nil (List.append_eq_nil_iff.mp hspecifiers.symm).2
      exact ⟨before, modifier, by rw [hparts, List.concat_eq_append]⟩
    have hmodifier := hws' modifier (List.mem_append_right _ (List.mem_singleton_self _))
    have hident := isIdentifier_modifiers modifier hmodifier
    rw [List.map_append] at hspecifiers
    rw [htype.eq_of_append_words hspecifiers.symm hident.isWord,
      normalizeBlanks_of_not_blank hident.ne_nil fun c hc => isBlank_of_isWord (hident.isWord c hc),
      String.ofList_toList]
    exact hmodifier

end Member

end ClassDiagram
