import ClassDiagram.Extraction
import ClassDiagram.Proofs.Member.Held
import ClassDiagram.Resolution

/-!
# Extraction and resolution of fields

The record of a class and its relationships are read off the same body, each with a form of its
own. A field that gives a relationship is listed in the record, at the same place and with the same
type, exactly if it does not stand inside another field. Otherwise the record may lack it: the
initializer of a field reaches up to the next semicolon, whatever is declared in between.
-/

namespace ClassDiagram

open Text Source

variable {language : Language}

/-- A byte offset is inside a field if one starts in front of it and ends behind it. -/
def Field.Covers (language : Language) (skeleton : List Char) (range : Span) (o : Nat) : Prop :=
  ∃ place p, (place, p) ∈ (Member.fieldForm language).within skeleton range ∧
    place < o ∧ o < place + byteLength p.text

/-- A byte offset is in the initializer of a field. -/
def Field.Initializes (language : Language) (skeleton : List Char) (range : Span) (o : Nat) :
    Prop :=
  ∃ place p, (place, p) ∈ (Member.fieldForm language).within skeleton range ∧
    p.initializer ≠ none ∧ place + byteLength (p.access ++ p.declarator) ≤ o ∧
      o < place + byteLength p.text

/-! ## Fields stand apart -/

theorem Field.le_or_le {skeleton : List Char} {range : Span} {a b : Nat × Member.Phrase}
    (ha : a ∈ (Member.fieldForm language).within skeleton range)
    (hb : b ∈ (Member.fieldForm language).within skeleton range) :
    a = b ∨ a.1 + byteLength a.2.text ≤ b.1 ∨ b.1 + byteLength b.2.text ≤ a.1 := by
  have hapart : ((Member.fieldForm language).within skeleton range).Pairwise fun a b =>
      a.1 + byteLength a.2.text ≤ b.1 := by
    refine List.pairwise_map.mpr ((pairwise_occurrencesFrom Member.Phrase.text
      (fun hread => ?_) 0 none 0 _).imp fun hle => ?_)
    · obtain ⟨hne, hprefix⟩ :=
        Member.exists_rest_of_field (Member.fieldForm_breaks language) rfl hread
      exact ⟨hne, rfl, hprefix⟩
    · dsimp only
      omega
  obtain ⟨i, hi, rfl⟩ := List.mem_iff_getElem.mp ha
  obtain ⟨j, hj, rfl⟩ := List.mem_iff_getElem.mp hb
  rw [List.pairwise_iff_getElem] at hapart
  rcases Nat.lt_trichotomy i j with hij | rfl | hij
  · exact .inr (.inl (hapart i j hi hj hij))
  · exact .inl rfl
  · exact .inr (.inr (hapart j i hj hi hij))

/-- A field is not inside another one. -/
theorem Field.not_covers {skeleton : List Char} {range : Span} {o : Nat} {p : Member.Phrase}
    (h : (o, p) ∈ (Member.fieldForm language).within skeleton range) :
    ¬ Field.Covers language skeleton range o := by
  rintro ⟨place, q, hmem, hbefore, hbehind⟩
  rcases Field.le_or_le hmem h with heq | hle | hle
  · rw [(Prod.mk.inj heq).1] at hbefore
    exact Nat.lt_irrefl _ hbefore
  · exact absurd hbehind (Nat.not_lt.mpr hle)
  · dsimp only at hle
    omega

/-! ## Holders among the fields -/

/-- A private field that holds its type is declared in the record of the stretch, or it stands
inside another field: in the initializer of one, or in one with the same type. -/
theorem Holder.declared_or_covered (code : List Char) {skeleton : List Char} {range : Span}
    {h : Holder} (hh : h ∈ Holder.fields language skeleton range) :
    (∃ f ∈ Field.declared language ⟨code, skeleton⟩ range, f.offset = h.offset ∧
      f.type = h.type ∧ f.visibility = .privateAccess) ∨
    Field.Covers language skeleton range h.offset ∧
      (Field.Initializes language skeleton range h.offset ∨
        ∃ f ∈ Field.declared language ⟨code, skeleton⟩ range, f.offset < h.offset ∧
          f.type = h.type) := by
  obtain ⟨⟨o, p⟩, hmem, rfl⟩ := List.mem_map.mp hh
  obtain ⟨before, back, hplace, rfl, hstart, hread⟩ := Member.Form.exists_place_of_mem_within hmem
  obtain ⟨_, _, _, _, _, hident, _⟩ := Member.words_of_held hread
  have htype : ∀ {q : Member.Phrase}, q.type = p.type →
      String.ofList (normalizeBlanks q.type) = String.ofList p.type := fun heq => by
    rw [heq, normalizeBlanks_of_not_blank hident.ne_nil fun c hc =>
      isBlank_of_isWord (hident.isWord c hc)]
  obtain ⟨q, hfield, hprivate, hsame, _⟩ := Member.exists_field_of_held hread
  rcases Member.Form.mem_within_or_inside hplace hstart hfield with hfound |
    ⟨place, between, earlier, rfl, hne, hfound, hearlier, hover⟩
  · refine .inl ⟨_, List.mem_map.mpr ⟨_, hfound, rfl⟩, rfl, htype hsame, ?_⟩
    change q.visibility = _
    rw [Member.Phrase.visibility, hprivate]
    rfl
  · obtain ⟨_, rest, hrest⟩ :=
      Member.exists_rest_of_field (Member.fieldForm_breaks language) rfl hearlier
    have hpos := byteLength_pos hne
    have hbehind := byteLength_lt_of_append hrest.symm hover
    rw [lastOf_append] at hstart
    refine .inr ⟨⟨_, _, hfound, ?_, ?_⟩, ?_⟩
    · simp only [Holder.ofPhrase, byteLength_append]
      omega
    · simp only [Holder.ofPhrase, byteLength_append]
      omega
    · rcases Member.held_inside_field hearlier hne hstart hover hread with
        ⟨hinitializer, further, hfurther⟩ | ⟨hsame, _⟩
      · refine .inl ⟨_, _, hfound, hinitializer, ?_, ?_⟩
        · rw [← hfurther]
          simp only [Holder.ofPhrase, byteLength_append]
          omega
        · simp only [Holder.ofPhrase, byteLength_append]
          omega
      · refine .inr ⟨_, List.mem_map.mpr ⟨_, hfound, rfl⟩, ?_, htype hsame⟩
        simp only [Holder.ofPhrase, Field.ofPhrase, byteLength_append]
        omega

/-- A private field that holds its type is declared in the record of the stretch exactly if it does
not stand inside another field. -/
theorem Holder.declared_iff (code : List Char) {skeleton : List Char} {range : Span} {h : Holder}
    (hh : h ∈ Holder.fields language skeleton range) :
    (∃ f ∈ Field.declared language ⟨code, skeleton⟩ range, f.offset = h.offset ∧
      f.type = h.type ∧ f.visibility = .privateAccess) ↔
    ¬ Field.Covers language skeleton range h.offset := by
  constructor
  · rintro ⟨f, hf, hoffset, _⟩
    obtain ⟨⟨o, p⟩, hmem, rfl⟩ := List.mem_map.mp hf
    rw [← hoffset]
    exact Field.not_covers hmem
  · intro hcovers
    exact (Holder.declared_or_covered code hh).resolve_right fun hcovered => hcovers hcovered.1

/-! ## Relationships that members give -/

/-- An association or a composition comes from a private field in the body of the class. -/
theorem exists_holder_of_mem_resolve {source : List Char} {owner : String}
    {known : String → Bool} {r : Relationship} (hr : r ∈ resolve .java source owner known)
    (hkind : r.kind = .association ∨ r.kind = .composition) :
    ∃ d, Declaration.find? .java (Masked.ofSource source).skeleton = some d ∧ d.name = owner ∧
      ∃ h ∈ Holder.fields .java (Masked.ofSource source).skeleton d.body, r.target = h.type := by
  rw [resolve, Resolution.ofSkeleton] at hr
  split at hr
  next => exact absurd hr List.not_mem_nil
  next d hfind =>
    split at hr
    next hname =>
      obtain ⟨c, hc, rfl⟩ := List.mem_map.mp hr
      have hc := List.mem_mergeSort.mp (List.mem_filter.mp hc).1
      refine ⟨d, hfind, hname, ?_⟩
      rcases List.mem_append.mp hc with hc | hc
      · -- The base clauses give no relationship of these two kinds.
        obtain ⟨clause, _, hclause⟩ := List.mem_flatMap.mp hc
        obtain ⟨item, _, rfl⟩ := List.mem_map.mp hclause
        dsimp only at hkind
        split at hkind <;> simp at hkind
      · obtain ⟨h, hh, rfl⟩ := List.mem_map.mp hc
        exact ⟨h, hh, rfl⟩
    next => exact absurd hr List.not_mem_nil

/-- Every private field that the resolver sees in a stretch of a Java source is declared there at
the same offset and with the same type, unless it stands inside another field: in its initializer,
or in a field of the same type. So an association or a composition comes from an attribute of its
target in the name-only record of the class, or from the initializer of a field. -/
theorem private_fields_declared (source : List Char) :
    (∀ range, ∀ h ∈ Holder.fields .java (Masked.ofSource source).skeleton range,
      ((∃ f ∈ Field.declared .java (.ofSource source) range, f.offset = h.offset ∧
          f.type = h.type ∧ f.visibility = .privateAccess) ↔
        ¬ Field.Covers .java (Masked.ofSource source).skeleton range h.offset) ∧
      (Field.Covers .java (Masked.ofSource source).skeleton range h.offset →
        Field.Initializes .java (Masked.ofSource source).skeleton range h.offset ∨
          ∃ f ∈ Field.declared .java (.ofSource source) range, f.offset < h.offset ∧
            f.type = h.type)) ∧
    ∀ owner known, ∀ r ∈ resolve .java source owner known,
      r.kind = .association ∨ r.kind = .composition →
      ∃ d, Declaration.find? .java (Masked.ofSource source).skeleton = some d ∧ d.name = owner ∧
        ∃ h ∈ Holder.fields .java (Masked.ofSource source).skeleton d.body, r.target = h.type ∧
          (Field.Initializes .java (Masked.ofSource source).skeleton d.body h.offset ∨
            ∃ f ∈ Field.declared .java (.ofSource source) d.body, f.type = r.target ∧
              (f.offset = h.offset ∧ f.visibility = .privateAccess ∨ f.offset < h.offset) ∧
              f.type ++ " " ++ f.name ∈ (extract .nameOnly .java source).attributes) := by
  refine ⟨fun range h hh => ⟨Holder.declared_iff _ hh, fun hcovers => ?_⟩,
    fun owner known r hr hkind => ?_⟩
  · rcases Holder.declared_or_covered (Masked.ofSource source).code hh with hdeclared | hcovered
    · exact absurd hcovers ((Holder.declared_iff _ hh).mp hdeclared)
    · exact hcovered.2
  · obtain ⟨d, hfind, hname, h, hh, htarget⟩ := exists_holder_of_mem_resolve hr hkind
    have hlisted : ∀ f ∈ Field.declared .java (.ofSource source) d.body,
        f.type ++ " " ++ f.name ∈ (extract .nameOnly .java source).attributes := fun f hf => by
      rw [extract, Extraction.ofMasked, hfind]
      exact List.mem_map.mpr ⟨f, hf, rfl⟩
    refine ⟨d, hfind, hname, h, hh, htarget, ?_⟩
    rcases Holder.declared_or_covered (Masked.ofSource source).code hh with
      ⟨f, hf, hoffset, htype, hprivate⟩ | ⟨_, hinitializes | ⟨f, hf, hoffset, htype⟩⟩
    · exact .inr ⟨f, hf, htype.trans htarget.symm, .inl ⟨hoffset, hprivate⟩, hlisted f hf⟩
    · exact .inl hinitializes
    · exact .inr ⟨f, hf, htype.trans htarget.symm, .inr hoffset, hlisted f hf⟩

/-- A class with a public field whose initializer is a class with a private field. -/
def anonymousHolder : List Char :=
  "class A { public Foo x = new Foo() { private Bar b; }; }".toList

theorem private_fields_declared_anonymousHolder :
    (extract .nameOnly .java anonymousHolder).attributes = ["Foo x"] ∧
      resolve .java anonymousHolder "A" ["A", "Bar"].contains = [⟨"A", "Bar", .association⟩] := by
  decide +kernel

end ClassDiagram
