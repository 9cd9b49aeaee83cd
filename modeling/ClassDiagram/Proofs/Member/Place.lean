import ClassDiagram.Member.Basic
import ClassDiagram.Proofs.Member.Recognition
import ClassDiagram.Proofs.Source.Apart

/-!
# Where declarations stand

What is found in a stretch of a skeleton stands in that stretch, at the offset that is told.
-/

namespace ClassDiagram.Member

open Text Source

variable {form : Form} {skeleton : List Char} {range : Span} {o : Nat} {p : Phrase}

/-- A declaration found in a stretch is read at its offset, where a word may start. -/
theorem Form.exists_place_of_mem_within (h : (o, p) ∈ form.within skeleton range) :
    ∃ before back, IsPlace (slice skeleton range) before back ∧
      o = range.start + byteLength before ∧ startsWord (lastOf none before) = true ∧
      form.recognize back = some p := by
  obtain ⟨⟨o', p'⟩, hoccurs, heq⟩ := List.mem_map.mp h
  obtain ⟨rfl, rfl⟩ := Prod.mk.inj heq
  obtain ⟨before, back, hplace, ho, hstart, hread⟩ := mem_occurrencesFrom hoccurs
  rw [Nat.zero_add] at ho
  exact ⟨before, back, hplace, by rw [ho], hstart, hread⟩

/-- A declaration found in a stretch is read at its offset. -/
theorem Form.mem_within (h : (o, p) ∈ form.within skeleton range) :
    ∃ before back, slice skeleton range = before ++ back ∧
      o = range.start + byteLength before ∧ form.recognize back = some p := by
  obtain ⟨before, back, ⟨hslice, _⟩, ho, _, hread⟩ := form.exists_place_of_mem_within h
  exact ⟨before, back, hslice, ho, hread⟩

/-- The declarations found in a stretch are in the order of the text. -/
theorem Form.pairwise_within (form : Form) (skeleton : List Char) (range : Span) :
    (form.within skeleton range).Pairwise fun a b => a.1 < b.1 := by
  refine List.pairwise_map.mpr ((pairwise_lt_occurrencesFrom _ _ _ _ _ _).imp fun hlt => ?_)
  exact Nat.add_lt_add_left hlt _

/-- Declarations that break with different characters are found at different offsets. -/
theorem Form.Breaks.offset_ne {other : Form} {ends others : List Char} (hform : form.Breaks ends)
    (hother : other.Breaks others) (hapart : ∀ d ∈ ends, d ∉ others) {o' : Nat} {p' : Phrase}
    (h : (o, p) ∈ form.within skeleton range) (h' : (o', p') ∈ other.within skeleton range) :
    o ≠ o' := by
  rintro rfl
  obtain ⟨before, back, hslice, ho, hread⟩ := form.mem_within h
  obtain ⟨before', back', hslice', ho', hread'⟩ := other.mem_within h'
  obtain ⟨_, rfl⟩ := append_inj_of_byteLength (hslice.symm.trans hslice') (by omega)
  obtain ⟨d, hd, hfind⟩ := hform.find? hread
  obtain ⟨d', hd', hfind'⟩ := hother.find? hread'
  obtain rfl := Option.some.inj (hfind.symm.trans hfind')
  exact hapart d hd hd'

theorem Form.nodup_offsets_within (form : Form) (skeleton : List Char) (range : Span) :
    ((form.within skeleton range).map (·.1)).Nodup := by
  apply List.pairwise_map.mpr
  exact (form.pairwise_within skeleton range).imp Nat.ne_of_lt

/-- Two forms that break with different characters find no two declarations at one offset. -/
theorem Form.Breaks.nodup_offsets {other : Form} {ends others : List Char}
    (hform : form.Breaks ends) (hother : other.Breaks others) (hapart : ∀ d ∈ ends, d ∉ others)
    (skeleton : List Char) (range : Span) :
    ((form.within skeleton range ++ other.within skeleton range).map (·.1)).Nodup := by
  rw [List.map_append]
  apply List.nodup_append.mpr
  refine ⟨form.nodup_offsets_within skeleton range, other.nodup_offsets_within skeleton range, ?_⟩
  intro o ho o' ho'
  obtain ⟨⟨_, p⟩, hp, rfl⟩ := List.mem_map.mp ho
  obtain ⟨⟨_, p'⟩, hp', rfl⟩ := List.mem_map.mp ho'
  exact hform.offset_ne hother hapart hp hp'

/-- A method of a stretch comes from a declaration there whose parameter list is closed. -/
theorem exists_signatureEnd_of_mem_declared {language : Language} {source : Masked} {m : Method}
    (h : m ∈ Method.declared language source range) :
    ∃ o p signatureEnd, (o, p) ∈ (methodForm language).within source.skeleton range ∧
      Method.signatureEnd? source.skeleton range.stop (o + byteLength p.text - 1) =
        some signatureEnd ∧
      m = ⟨o, p.visibility, String.ofList p.name, String.ofList (normalizeBlanks
        (slice source.code ⟨o + byteLength p.access, signatureEnd⟩))⟩ := by
  obtain ⟨⟨o, p⟩, hmem, hmethod⟩ := List.mem_filterMap.mp h
  obtain ⟨signatureEnd, hend, hmethod⟩ := Option.bind_eq_some_iff.mp hmethod
  exact ⟨o, p, signatureEnd, hmem, hend, (Option.some.inj hmethod).symm⟩

/-- A declaration that can be read in a stretch is found there, or it stands inside one that starts
earlier. -/
theorem Form.mem_within_or_inside {before back : List Char}
    (hplace : IsPlace (slice skeleton range) before back)
    (hstart : startsWord (lastOf none before) = true) (hread : form.recognize back = some p) :
    (range.start + byteLength before, p) ∈ form.within skeleton range ∨
      ∃ place between earlier, before = place ++ between ∧ between ≠ [] ∧
        (range.start + byteLength place, earlier) ∈ form.within skeleton range ∧
        form.recognize (between ++ back) = some earlier ∧
        between.length < earlier.text.length := by
  have hwithin : ∀ {place : List Char} {found : Phrase},
      (0 + byteLength place, found) ∈ form.occurrences (slice skeleton range) →
        (range.start + byteLength place, found) ∈ form.within skeleton range := fun hmem => by
    rw [Nat.zero_add] at hmem
    exact List.mem_map.mpr ⟨_, hmem, rfl⟩
  rcases @foundOrInside_occurrencesFrom _ form.recognize (·.text.length) 0 none 0 _ _ _ _ hplace
    hstart hread with hinside | hmem | ⟨place, between, earlier, hparts, hne, hmem, hover⟩
  · exact absurd hinside (Nat.not_lt_zero _)
  · exact .inl (hwithin hmem)
  · exact .inr ⟨place, between, earlier, hparts, hne, hwithin hmem, hover⟩

end ClassDiagram.Member
