import ClassDiagram.Proofs.Printed.Declared

/-!
# Fields that hold a plainly named type

A private field holds its type if the type is an identifier and its modifiers say nothing else
about it. The fields found as holders in the body of a class are exactly these.
-/

namespace ClassDiagram.Printed

open Text Source

variable {language : Language}

/-- Whether a field declared so holds its type. -/
def Declarator.Holds (d : Declarator language) : Prop :=
  d.access = "private" ∧ (∀ m ∈ d.modifiers, m.word ∈ language.holdingModifiers) ∧
    IsIdentifier d.type.text

instance (d : Declarator language) : Decidable d.Holds :=
  inferInstanceAs (Decidable (_ ∧ (∀ m ∈ d.modifiers, _) ∧ _))

def Member.heldPhrase? (m : Member language) : Option Member.Phrase :=
  if m.declarator.Holds then m.fieldPhrase? else none

namespace Declarator

variable {d : Declarator language}

theorem head_afterAccess (rest : List Char) :
    ∀ c ∈ (d.afterAccess ++ rest).head?, isWord c = false := by
  intro c hc
  rw [afterAccess, List.append_assoc, List.head?_append_of_ne_nil _ d.isLead.ne_nil] at hc
  exact isWord_of_isBlank (d.isLead.head c hc)

/-- A declarator of a plainly named type is read in its parts. -/
theorem isReadBy_bare {form : Member.Form} {words : List String} (hform : form.IsBare words)
    (hfree : PrefixFree form.access) (hwords : PrefixFree words)
    (hsub : ∀ w ∈ words, w ∈ Language.modifiers) (haccess : d.access ∈ form.access)
    (hmodifiers : ∀ m ∈ d.modifiers, m.word ∈ words) (htype : IsIdentifier d.type.text) :
    d.IsReadBy form := by
  have hmentions : mentions words none d.type.text = false := mentions_of_subset hsub d.type_free
  refine d.isReadBy hfree haccess (fun rest hrest => ?_) fun rest hrest => ?_
  · rw [hform.leads]
    exact leads_append hwords hform.words (d.isLead_of_mem hmodifiers)
      (TypeText.endsLead hform.words hmentions hrest)
  · rw [hform.types]
    refine ⟨[], congrArg Option.toList (Reader.named_append htype fun c hc => ?_)⟩
    exact (Bool.or_eq_false_iff.mp (hrest.head c hc).1).1

theorem isReadBy_heldFieldForm (h : d.Holds) : d.IsReadBy (Member.heldFieldForm language) :=
  isReadBy_bare (Member.heldFieldForm_isBare language) (show PrefixFree ["private"] by decide)
    (prefixFree_holdingModifiers language) (by cases language <;> decide)
    (List.mem_singleton.mpr h.1) h.2.1 h.2.2

/-- A form that asks for a plainly named type recognizes a declarator of such a type only, and with
no other words than the form allows. -/
theorem bare_of_recognize {form : Member.Form} {words : List String} (hform : form.IsBare words)
    {mark : Char} {ending : List Char} (hending : BreaksWith mark ending) {p : Member.Phrase}
    (h : form.recognize (d.text ++ ending) = some p) :
    d.access ∈ form.access ∧ (∀ m ∈ d.modifiers, m.word ∈ words) ∧ IsIdentifier d.type.text := by
  obtain ⟨w, hw, rest, ws, hparts, hhead, hws, htype, hsame⟩ := hform.words_of_recognize h
  rw [text, List.append_assoc] at hparts
  obtain ⟨haccess, rfl⟩ := eq_of_isWord_append
    (isIdentifier_accessKeywords language d.access d.access_mem).isWord (hform.access w hw).isWord
    (d.head_afterAccess ending) hhead hparts
  obtain ⟨gap, hgap, htake⟩ := hending.startsWithBreak.takeWhile
  have hunbroken : Unbroken d.afterAccess := fun c hc =>
    d.unbroken_text c (List.mem_append_right _ hc)
  rw [takeWhile_unbroken_append hunbroken, htake, d.words_afterAccess hgap, Declarator.words,
    show [p.type, p.name] = [p.type] ++ [p.name] from rfl, ← List.append_assoc] at hsame
  obtain ⟨hsame, _⟩ := List.append_inj' hsame rfl
  -- Every word of the type is one of the modifiers that were found, or the type that was found.
  have hident : ∀ v ∈ Text.words d.type.text, ∀ c ∈ v, isWord c = true := by
    intro v hv c hc
    have hmem : v ∈ ws.map String.toList ++ [p.type] := hsame ▸ List.mem_append_right _ hv
    rcases List.mem_append.mp hmem with hmem | hmem
    · obtain ⟨u, hu, rfl⟩ := List.mem_map.mp hmem
      exact (hform.words u (hws u hu)).isWord c hc
    · rw [List.mem_singleton.mp hmem] at hc
      exact htype.isWord c hc
  have hbare : IsIdentifier d.type.text := d.type.isType.isIdentifier fun c hc hblank => by
    obtain ⟨v, hv, hcv⟩ := exists_mem_words hc hblank
    exact hident v hv c hcv
  have hsingle : Text.words d.type.text = [d.type.text] := words_of_forall_not_blank hbare.ne_nil
    fun c hc => isBlank_of_isWord (hbare.isWord c hc)
  rw [hsingle] at hsame
  obtain ⟨hmodifiers, _⟩ := List.append_inj' hsame rfl
  refine ⟨String.toList_inj.mp haccess ▸ hw, fun m hm => ?_, hbare⟩
  have hmem : m.word.toList ∈ ws.map String.toList := hmodifiers ▸ List.mem_map_of_mem hm
  obtain ⟨v, hv, heq⟩ := List.mem_map.mp hmem
  rw [← String.toList_inj.mp heq]
  exact hws v hv

/-- Only a declarator that holds its type is found as one. -/
theorem holds_of_recognize {mark : Char} {ending : List Char} (hending : BreaksWith mark ending)
    {p : Member.Phrase}
    (h : (Member.heldFieldForm language).recognize (d.text ++ ending) = some p) : d.Holds := by
  obtain ⟨haccess, hmodifiers, htype⟩ :=
    bare_of_recognize (Member.heldFieldForm_isBare language) hending h
  exact ⟨List.mem_singleton.mp haccess, hmodifiers, htype⟩

/-- In a declarator that is not recognized as a whole, nothing is found. -/
theorem isQuiet_of_recognize_eq_none {form : Member.Form} {ends : List Char}
    (hform : form.Breaks ends) (hsub : ∀ w ∈ form.access, w ∈ Language.modifiers)
    (hplain : ∀ m ∈ d.modifiers, m.word ∉ form.access) {mark : Char} {ending : List Char}
    (hending : BreaksWith mark ending) (hnone : form.recognize (d.text ++ ending) = none)
    (before : Option Char) : IsQuiet form.recognize before d.text ending := by
  have hopens := hform.opensWith
  have hwords := hform.access
  have htype : mentions form.access (lastOf (lastOf before d.access.toList) d.lead)
      d.type.text = false := by
    have hstart := startsWord_lastOf_gap d.typeGap.ne_nil d.typeGap.blank
    rw [lead, lastOf_append, mentions_congr ((hstart _).trans (show _ = startsWord none from rfl))]
    exact mentions_of_subset hsub d.type_free
  have hname : ∀ before, mentions form.access before d.name.text = false :=
    mentions_of_isWord d.name.isIdentifier.isWord fun w hw => d.name_free w (hsub w hw)
  -- Elsewhere in the declarator no access keyword of the form stands at all.
  rw [text, afterAccess] at hnone ⊢
  refine IsQuiet.append (isQuiet_of_isWord
    (isIdentifier_accessKeywords language d.access d.access_mem).isWord ?_ before) ?_
  · simpa only [List.append_assoc] using hnone
  refine (d.isLead.isQuiet isIdentifier_modifiers hopens hwords ?_ _ _).append ?_
  · intro w hw
    obtain ⟨m, hm, rfl⟩ := List.mem_map.mp hw
    exact hplain m hm
  refine IsQuiet.append (isQuiet_of_not_mentions hopens hwords htype ?_) ?_
  · rw [List.append_assoc]
    exact forall_mem_head_gap isWord_of_isBlank d.nameGap.ne_nil d.nameGap.blank _
  apply isQuiet_blanks_append hopens hwords d.nameGap.blank
  exact isQuiet_of_not_mentions hopens hwords (hname _)
    hending.startsWithBreak.head

theorem isQuiet_of_not_holds (hnot : ¬ d.Holds) (hplain : ∀ m ∈ d.modifiers, m.word ≠ "private")
    {mark : Char} {ending : List Char} (hending : BreaksWith mark ending) (before : Option Char) :
    IsQuiet (Member.heldFieldForm language).recognize before d.text ending := by
  refine isQuiet_of_recognize_eq_none (Member.heldFieldForm_breaks language)
    (show ∀ w ∈ ["private"], w ∈ Language.modifiers by decide)
    (fun m hm hmem => hplain m hm (List.mem_singleton.mp hmem)) hending ?_ before
  cases hread : (Member.heldFieldForm language).recognize (d.text ++ ending) with
  | none => rfl
  | some p => exact absurd (d.holds_of_recognize hending hread) hnot

end Declarator

theorem finds_heldFieldForm {m : Member language} (hlacks : m.Lacks ["private"])
    (hplain : ∀ modifier ∈ m.declarator.modifiers, modifier.word ≠ "private") :
    Finds (Member.heldFieldForm language) m m.heldPhrase? := by
  have hform := Member.heldFieldForm_breaks language
  have hsub : ∀ w ∈ (Member.heldFieldForm language).access, w ∈ language.accessKeywords := by
    cases language <;> decide
  unfold Member.heldPhrase?
  split
  next hholds =>
    have hread := Declarator.isReadBy_heldFieldForm hholds
    obtain ⟨leading, d, ending⟩ := m
    cases ending with
    | field gap initializer => exact .field hform hsub rfl hlacks hread rfl
    | method gap parameters clauses body =>
        exact .of_mark hform hsub hlacks (by simp [Ending.mark])
    | property hcsharp accessors initializer =>
        exact .of_mark hform hsub hlacks (by simp [Ending.mark])
  next hnot =>
    refine .nothing fun before further => ?_
    have hbreaks := m.ending.breaksWith Stretch.skeleton further
    exact (Declarator.isQuiet_of_not_holds hnot hplain hbreaks before).append
      (m.ending.isQuiet hform hsub hlacks)

/-! ## The holders of a class -/

/-- The type that an initializer is found to construct. -/
def constructedBy? (initializer : Option Stretch) : Option (List Char) :=
  initializer.bind fun s => TypeList.constructed? s.untilSemicolon

def Member.holder? (m : Member language) (offset : Nat) : Option Holder :=
  match m.ending with
  | .field _ initializer =>
    if m.declarator.Holds then
      some ⟨offset, String.ofList m.declarator.type.text,
        (constructedBy? initializer).map String.ofList⟩
    else none
  | _ => none

/-- The fields of a class that hold their types, in order. -/
theorem Class.holder_fieldsWith (c : Class language) (heading : Heading)
    (hlacks : ∀ m ∈ c.members, m.Lacks ["private"])
    (hplain : ∀ m ∈ c.members, ∀ modifier ∈ m.declarator.modifiers, modifier.word ≠ "private") :
    Holder.fields language (Masked.ofSource (c.textWith heading)).skeleton
        (c.declarationWith heading).body =
      (placed 0 c.members).filterMap fun (o, m) =>
        m.holder? ((c.declarationWith heading).body.start + o) := by
  rw [Holder.fields, c.within_bodyWith heading (Member.heldFieldForm_breaks language) fun m hm =>
    finds_heldFieldForm (hlacks m hm) (hplain m hm), List.map_filterMap]
  apply List.filterMap_congr
  rintro ⟨o, m⟩ _
  obtain ⟨leading, d, ending⟩ := m
  dsimp only
  rw [Member.heldPhrase?]
  split
  next hholds =>
    cases ending with
    | field gap initializer =>
        simp only [Member.holder?, if_pos hholds]
        cases initializer <;> rfl
    | method gap parameters clauses body => rfl
    | property hcsharp accessors initializer => rfl
  next hnot =>
    cases ending with
    | field gap initializer => simp [Member.holder?, hnot]
    | method gap parameters clauses body => rfl
    | property hcsharp accessors initializer => rfl

theorem Class.holder_fields (c : Class language) (hlacks : ∀ m ∈ c.members, m.Lacks ["private"])
    (hplain : ∀ m ∈ c.members, ∀ modifier ∈ m.declarator.modifiers, modifier.word ≠ "private") :
    Holder.fields language (Masked.ofSource c.text).skeleton c.declaration.body =
      (placed 0 c.members).filterMap fun (o, m) => m.holder? (c.declaration.body.start + o) :=
  c.holder_fieldsWith c.header.heading hlacks hplain

end ClassDiagram.Printed
