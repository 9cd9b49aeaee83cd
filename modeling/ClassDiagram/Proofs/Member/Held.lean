import ClassDiagram.Proofs.Member.Place

/-!
# Held fields among the fields

A private field of a plainly named type is read twice, as a field and as a holder of its type.
Where both readings start at the same place they find the same type. But each of them skips what
it has found, and so a field that is read as a holder may stand inside a larger one: in its
initializer, or behind another access word.
-/

namespace ClassDiagram.Member

open Text Source

variable {language : Language} {cs back between : List Char} {p q : Phrase}

/-! ## The words of a field -/

theorem exists_rest_of_field {form : Form} {ends : List Char} (hform : form.Breaks ends)
    (hfield : form.tail = fieldTail) (h : form.recognize cs = some p) :
    p.text ≠ [] ∧ p.text <+: cs := by
  obtain ⟨w, hw, haccess⟩ := Form.exists_access h
  obtain ⟨afterName, rfl, htail⟩ := hform.exists_afterName h
  rw [hfield] at htail
  obtain ⟨_, rest, _, rfl, _⟩ := fieldTail_eq_some htail
  refine ⟨?_, rest, by simp [Phrase.text]⟩
  simp [Phrase.text, haccess, (hform.access w hw).ne_nil]

theorem mem_accessKeywords_private (language : Language) :
    "private" ∈ language.accessKeywords := by
  cases language <;> decide

theorem holdingModifiers_subset (language : Language) :
    ∀ w ∈ language.holdingModifiers, w ∈ Language.modifiers := by
  cases language <;> decide

/-- The words of a field that holds its type. -/
theorem words_of_held (h : (heldFieldForm language).recognize cs = some p) :
    ∃ rest ws, cs = "private".toList ++ rest ∧ (∃ c ∈ rest.head?, isBlank c = true) ∧
      IsLead Language.modifiers ws p.lead ∧ IsIdentifier p.type ∧
      words (rest.takeWhile (!endsArguments ·)) = ws.map String.toList ++ [p.type, p.name] := by
  have hform := heldFieldForm_isBare language
  obtain ⟨w, hw, rest, rfl, _, hhead, hwords⟩ := hform.breaks.words_of_recognize hform.tail h
  obtain rfl := List.mem_singleton.mp hw
  obtain ⟨_, _, _, _, _, _, hlead, htype, _⟩ := Form.recognize_eq_some h
  obtain ⟨_, ws, hisLead⟩ := mem_leads hlead
  obtain ⟨_, hident⟩ := mem_bareTypes htype
  have htypeWord : words p.type = [p.type] := words_of_forall_not_blank hident.ne_nil
    fun c hc => isBlank_of_isWord (IsIdentifier.isWord hident c hc)
  refine ⟨rest, ws, rfl, hhead, hisLead.of_subset (holdingModifiers_subset language), hident, ?_⟩
  rw [hwords, hisLead.words_append (isIdentifier_holdingModifiers language), htypeWord,
    List.append_assoc]
  rfl

/-- What is read as a field whose last words are a plain type and a name has this type and this
name. -/
theorem type_eq_of_words (h : (fieldForm language).recognize cs = some q) {w : String}
    (hw : w ∈ language.accessKeywords) {rest type name : List Char} (hparts : cs = w.toList ++ rest)
    {front : List (List Char)} (htype : IsIdentifier type)
    (hwords : words (rest.takeWhile (!endsArguments ·)) = front ++ [type, name]) :
    q.access = w.toList ∧ q.type = type ∧ q.name = name := by
  obtain ⟨v, hv, rest', hparts', haccess, _, hwords'⟩ :=
    (fieldForm_breaks language).words_of_recognize startsWithBreak_fieldTail h
  obtain rfl : v = w := PrefixFree.eq_of_prefix (prefixFree_accessKeywords language) hv hw
    (hparts' ▸ List.prefix_append _ _) (hparts ▸ List.prefix_append _ _)
  obtain rfl := List.append_cancel_left (hparts'.symm.trans hparts)
  obtain ⟨_, _, _, _, _, _, hlead, hread, _⟩ := Form.recognize_eq_some h
  obtain ⟨_, ws, hisLead⟩ := mem_leads hlead
  have hsame : words (q.lead ++ q.type) ++ [q.name] = (front ++ [type]) ++ [name] := by
    rw [← hwords', hwords, List.append_assoc]
    rfl
  obtain ⟨hspecifiers, hname⟩ := List.append_inj' hsame rfl
  rw [hisLead.words_append isIdentifier_modifiers] at hspecifiers
  exact ⟨haccess, (isType_of_mem_types hread).eq_of_append_words hspecifiers htype.isWord,
    List.singleton_inj.mp hname⟩

/-! ## Two readings of a field -/

/-- What is read as a holder of its type can be read as a field, at the same place. -/
theorem exists_field_of_held (h : (heldFieldForm language).recognize cs = some p) :
    ∃ q, (fieldForm language).recognize cs = some q ∧ q.access = "private".toList ∧
      q.type = p.type ∧ q.name = p.name := by
  obtain ⟨rest, ws, hparts, _, hlead, htype, hwords⟩ := words_of_held h
  obtain ⟨afterAccess, afterLead, afterType, afterGap, afterName, haccess, hleads, htypes, hgap,
    hname, htail⟩ := Form.recognize_eq_some h
  obtain ⟨_, hw, hwaccess, rfl⟩ := Reader.word_eq_some haccess
  obtain rfl := List.mem_singleton.mp hw
  obtain ⟨rfl, _⟩ := mem_leads hleads
  obtain ⟨rfl, _⟩ := mem_bareTypes htypes
  obtain ⟨rfl, hne, hblank⟩ := blanks?_eq_some hgap
  obtain ⟨rfl, hident, _⟩ := Reader.named_eq_some hname
  have hclosing := (startsWithBreak_fieldTail htail).not_mem_closing
  obtain ⟨_, hfirst⟩ := types_append htype.isType (endsType_gap_name hne hblank hident hclosing)
  have hstart : ∀ c ∈ (p.type ++ (p.gap ++ (p.name ++ afterName))).head?, isBlank c = false :=
    fun c hc => isBlank_of_isWord (htype.head _ c hc)
  have hread : ((fieldForm language).recognize (p.access ++ (p.lead ++
      (p.type ++ (p.gap ++ (p.name ++ afterName)))))).isSome = true := by
    rw [hwaccess]
    exact Form.isSome_recognize
      (Reader.word_append (prefixFree_accessKeywords language)
        (mem_accessKeywords_private language) _)
      (hlead.mem_leads_append prefixFree_modifiers isIdentifier_modifiers hstart)
      (hfirst ▸ List.mem_cons_self) hgap hname htail
  obtain ⟨q, hq⟩ := Option.isSome_iff_exists.mp hread
  obtain ⟨hprivate, hsame⟩ := type_eq_of_words hq (mem_accessKeywords_private language) hparts htype
    hwords
  exact ⟨q, hq, hprivate, hsame⟩

/-- A text that starts with a word can start inside a field only behind its access keyword. -/
theorem eq_access_append (hq : (fieldForm language).recognize cs = some q) {before : Option Char}
    (hne : between ≠ []) (hstart : startsWord (lastOf before between) = true)
    {inner : List Char} (hparts : q.access ++ q.declarator = between ++ inner) :
    ∃ front, between = q.access ++ front ∧ q.declarator = front ++ inner := by
  obtain ⟨w, hw, haccess⟩ := Form.exists_access hq
  rcases List.append_eq_append_iff.mp hparts with ⟨front, rfl, hdeclarator⟩ | ⟨back, hback, _⟩
  · exact ⟨front, rfl, hdeclarator⟩
  · -- A word cannot start inside the access keyword.
    obtain ⟨between, c, rfl⟩ := List.eq_nil_or_concat between |>.resolve_left hne
    have hc : isWord c = true :=
      (isIdentifier_accessKeywords language w hw).isWord c (by simp [← haccess, hback])
    simp [startsWord, hc] at hstart

/-- If a word starts inside the tail of a field, the tail is an initializer. -/
theorem initializer_ne_none_of_inside {front back tail : List Char}
    {initializer : Option (List Char)}
    (htail : fieldTail (front ++ back) = some (tail, initializer))
    (hover : front.length < tail.length) (hword : ∀ c ∈ back.head?, isWord c = true) :
    initializer ≠ none := by
  rintro rfl
  obtain ⟨gap, further, hgap, hend, ⟨htext, _⟩ | ⟨_, _, hsome⟩⟩ := fieldTail_eq_some htail
  · rcases List.append_eq_append_iff.mp hend with ⟨inner, hparts, hinner⟩ | ⟨inner, hfront, _⟩
    · obtain ⟨c, inner, rfl⟩ : ∃ c later, inner = c :: later := by
        apply List.exists_cons_of_ne_nil
        rintro rfl
        simp [hparts] at hover
      have hc : c ∈ gap ++ [';'] := htext ▸ hparts ▸ List.mem_append_right _ List.mem_cons_self
      have hword : isWord c = true := hword c (by rw [hinner]; rfl)
      rcases List.mem_append.mp hc with hc | hc
      · rw [isWord_of_isBlank (hgap c hc)] at hword
        exact Bool.false_ne_true hword
      · rw [List.mem_singleton.mp hc] at hword
        exact absurd hword (by decide)
    · rw [hfront, List.length_append] at hover
      omega
  · exact absurd hsome (by simp)

/-- A holder that is read inside a field stands in its initializer, or the field has the same type
and the same name. -/
theorem held_inside_field (hq : (fieldForm language).recognize (between ++ back) = some q)
    {before : Option Char} (hne : between ≠ [])
    (hstart : startsWord (lastOf before between) = true)
    (hover : between.length < q.text.length)
    (hp : (heldFieldForm language).recognize back = some p) :
    q.initializer ≠ none ∧ q.access ++ q.declarator <+: between ∨
      q.type = p.type ∧ q.name = p.name := by
  obtain ⟨rest, ws, hback, hhead, _, htype, hwords⟩ := words_of_held hp
  have hprivate := isIdentifier_private "private" (List.mem_singleton_self _)
  obtain ⟨afterName, hparts, htail⟩ := (fieldForm_breaks language).exists_afterName hq
  have hparts : between ++ back = (q.access ++ q.declarator) ++ afterName := by simpa using hparts
  rcases List.append_eq_append_iff.mp hparts with ⟨inner, hinner, rfl⟩ | ⟨front, rfl, rfl⟩
  · -- The word `private` stands in front of the name, and the words after it are the last ones.
    refine .inr ?_
    obtain ⟨front, rfl, hdeclarator⟩ := eq_access_append hq hne hstart hinner
    have hunbroken : Unbroken front := fun c hc =>
      (fieldForm_breaks language).unbroken_declarator hq c (hdeclarator ▸ List.mem_append_left _ hc)
    have hgap : ∃ c ∈ (rest.takeWhile (!endsArguments ·)).head?, isBlank c = true := by
      obtain ⟨c, hc, hblank⟩ := hhead
      obtain ⟨further, rfl⟩ := List.head?_eq_some_iff.mp hc
      rw [List.takeWhile_cons, endsArguments_of_isBlank hblank]
      exact ⟨c, rfl, hblank⟩
    have hlast : words ((front ++ (inner ++ afterName)).takeWhile (!endsArguments ·)) =
        (words (front ++ "private".toList) ++ ws.map String.toList) ++ [p.type, p.name] := by
      rw [hback, takeWhile_unbroken_append hunbroken,
        takeWhile_unbroken_append (unbroken_of_isWord hprivate.isWord), ← List.append_assoc,
        words_append_of_head hgap, hwords, List.append_assoc]
    obtain ⟨w, hw, haccess⟩ := Form.exists_access hq
    rw [List.append_assoc] at hq
    exact (type_eq_of_words hq hw (by rw [haccess]) htype hlast).2
  · -- The tail of the field reaches up to the word `private`, and so it has an initializer.
    simp only [Phrase.text, List.length_append, Nat.add_lt_add_iff_left] at hover
    refine .inl ⟨initializer_ne_none_of_inside htail hover ?_, List.prefix_append _ _⟩
    rw [hback]
    exact hprivate.head rest

end ClassDiagram.Member
