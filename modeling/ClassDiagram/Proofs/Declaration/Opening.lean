import ClassDiagram.Declaration
import ClassDiagram.Proofs.Member.Recognition
import ClassDiagram.Proofs.Source.Mention

/-!
# The opening of a declaration

A declaration is opened by one of its keywords, white space and a whole identifier, and these three
are found again wherever they stand.
-/

namespace ClassDiagram.Declaration

open Text Source

variable {language : Language}

/-- A declaration keyword, white space and an identifier that does not go on. -/
structure Opening.IsRead (language : Language) (o : Opening) : Prop where
  keyword : String.ofList o.keyword ∈ language.declarationKeywords
  gap_ne_nil : o.gap ≠ []
  gap_blank : ∀ c ∈ o.gap, isBlank c = true
  name : IsIdentifier o.name
  rest : ∀ c ∈ o.rest.head?, isWord c = false

theorem opening?_eq_some_iff {cs : List Char} {o : Opening} :
    opening? language cs = some o ↔ cs = o.text ++ o.rest ∧ o.IsRead language := by
  constructor
  · intro h
    simp only [opening?, Option.bind_eq_bind, Option.bind_eq_some_iff] at h
    obtain ⟨⟨keyword, afterKeyword⟩, hkeyword, ⟨gap, afterGap⟩, hgap, ⟨name, rest⟩, hname, heq⟩ := h
    obtain rfl := Option.some.inj heq
    obtain ⟨w, hw, rfl, rfl⟩ := Reader.word_eq_some hkeyword
    obtain ⟨rfl, hne, hblank⟩ := blanks?_eq_some hgap
    obtain ⟨rfl, hident, hrest⟩ := Reader.named_eq_some hname
    exact ⟨by simp [Opening.text], by rwa [String.ofList_toList], hne, hblank, hident, hrest⟩
  · rintro ⟨rfl, hkeyword, hne, hblank, hident, hrest⟩
    obtain ⟨keyword, gap, name, rest⟩ := o
    have hread := Reader.word_append (prefixFree_declarationKeywords language) hkeyword
      (gap ++ (name ++ rest))
    rw [String.toList_ofList] at hread
    have hspace : Reader.space (gap ++ (name ++ rest)) = some (gap, name ++ rest) :=
      blanks?_append hne hblank fun c hc => isBlank_of_isWord (hident.head rest c hc)
    have hnamed : Reader.identifier (name ++ rest) = some (name, rest) :=
      Reader.named_append hident hrest
    simp only [opening?, Opening.text, List.append_assoc, hread, hspace, hnamed,
      Option.bind_eq_bind, Option.bind_some]

theorem Opening.IsRead.text_ne_nil {o : Opening} (h : o.IsRead language) : o.text ≠ [] := by
  simp [Opening.text, h.gap_ne_nil]

/-- A declaration starts with one of its keywords as a whole word. -/
theorem opensWith_opening? (language : Language) :
    OpensWith (opening? language) language.declarationKeywords := by
  intro cs o h
  obtain ⟨rfl, hread⟩ := opening?_eq_some_iff.mp h
  have hends := forall_mem_head_gap isWord_of_isBlank hread.gap_ne_nil hread.gap_blank
    (o.name ++ o.rest)
  refine startsWithWord_iff.mpr ⟨_, hread.keyword, o.gap ++ (o.name ++ o.rest), ?_,
    endsWord_iff.mpr hends⟩
  simp [Opening.text]

end ClassDiagram.Declaration
