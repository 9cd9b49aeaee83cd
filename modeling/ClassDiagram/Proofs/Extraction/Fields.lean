import ClassDiagram.Proofs.Extraction.Visibility
import ClassDiagram.Proofs.Member.Held
import ClassDiagram.Proofs.Text.Cut
import Mathlib.Data.List.Forall2
import Mathlib.Data.Set.List

/-!
# The fields of a stretch

The fields that are found in a stretch of a source stand there one behind the other, each from its
access keyword to its semicolon. They are the fields of the text of that stretch: nothing around it
matters, and it shifts their offsets only.
-/

namespace ClassDiagram

open Text Source

namespace Text

theorem IsExtent.exists_parts {cs : List Char} {span : Span} (h : IsExtent cs span) :
    ∃ front behind, cs = front ++ (slice cs span ++ behind) ∧ byteLength front = span.start ∧
      span.start + byteLength (slice cs span) = span.stop := by
  obtain ⟨front, rest, hstart, hfront⟩ := isBoundary_iff.mp h.start_boundary
  obtain ⟨upTo, behind, hstop, hupTo⟩ := isBoundary_iff.mp h.stop_boundary
  obtain ⟨part, rfl, rfl⟩ := exists_between_of_byteLength_le (hstart.symm.trans hstop)
    (hfront ▸ hupTo ▸ h.start_le)
  rw [byteLength_append] at hupTo
  have hslice : slice cs span = part := by
    rw [hstart]
    exact slice_append_of_eq hfront hupTo
  rw [hslice]
  exact ⟨front, behind, hstart, hfront.symm, by rw [hfront, hupTo]⟩

theorem slice_of_cut?_eq_some {cs part : List Char} {span : Span} (h : cut? cs span = some part) :
    slice cs span = part := by
  rw [cut?] at h
  split at h
  next => exact Option.some.inj h
  next => exact absurd h (by simp)

/-- A checked cut of a part of a text, made in the text. -/
theorem cut?_part (front part behind : List Char) {start stop : Nat}
    (hstop : stop ≤ byteLength part) :
    cut? (front ++ (part ++ behind)) ⟨byteLength front + start, byteLength front + stop⟩ =
      cut? part ⟨start, stop⟩ := by
  by_cases h : IsExtent part ⟨start, stop⟩
  · obtain ⟨a, b, hparts, ha, hend⟩ := h.exists_parts
    generalize slice part ⟨start, stop⟩ = cut at hparts hend
    dsimp only at ha hend
    rw [cut?_append hparts ha.symm (by rw [byteLength_append]; omega)]
    refine cut?_append (show front ++ (part ++ behind) = (front ++ a) ++ (cut ++ (b ++ behind)) by
      simp [hparts]) ?_ ?_ <;> simp only [byteLength_append] <;> omega
  · have hwhole : ¬ IsExtent (front ++ (part ++ behind))
        ⟨byteLength front + start, byteLength front + stop⟩ := by
      intro hwhole
      obtain ⟨x, y, hparts, hx, hend⟩ := hwhole.exists_parts
      generalize slice (front ++ (part ++ behind)) _ = cut at hparts hend
      dsimp only at hx hend
      obtain ⟨a, rfl, hpart⟩ := exists_between_of_byteLength_le hparts (by omega)
      rw [byteLength_append] at hx
      rw [← List.append_assoc] at hpart
      obtain ⟨b, hb, _⟩ := exists_between_of_byteLength_le hpart.symm
        (by rw [byteLength_append]; omega)
      rw [List.append_assoc] at hb
      exact h (isExtent_append hb (by omega) (by rw [byteLength_append]; omega))
    rw [cut?, cut?, if_neg h, if_neg hwhole]

end Text

/-- What a stretch of a source shows in the code and in the skeleton. -/
def Source.Masked.cut (source : Masked) (range : Span) : Masked where
  code := slice source.code range
  skeleton := slice source.skeleton range

namespace Field

variable {language : Language} {source : List Char} {range : Span} {o : Nat} {p : Member.Phrase}

/-! ## Where a field stands -/

/-- A declaration of a field in a text, from its access keyword to its semicolon. -/
structure Match (language : Language) (text : List Char) where
  before : List Char
  phrase : Member.Phrase
  after : List Char
  parts : text = before ++ (phrase.text ++ after)
  access : ∃ w ∈ language.accessKeywords, phrase.access = w.toList
  starts : startsWord (lastOf none before) = true
  apart : ∃ c ∈ phrase.declarator.head?, isBlank c = true
  unbroken : Unbroken (phrase.access ++ phrase.declarator)
  name : IsIdentifier phrase.name
  tail : ∃ gap, (∀ c ∈ gap, isBlank c = true) ∧ (phrase.tail = gap ++ [';'] ∨
    ∃ initializer, phrase.tail = gap ++ '=' :: (initializer ++ [';']))

namespace Match

variable {text : List Char}

/-- The bytes of the text that belong to the declaration. -/
def span (m : Match language text) : Span :=
  ⟨byteLength m.before, byteLength (m.before ++ m.phrase.text)⟩

/-- A field is declared here in a text that starts at the byte offset `start`. -/
structure Declares (start : Nat) (m : Match language text) (f : Field) : Prop where
  offset : f.offset = start + m.span.start
  visibility : Visibility.ofKeyword? (String.ofList m.phrase.access) = some f.visibility
  name : f.name = String.ofList m.phrase.name

theorem declares_ofPhrase (m : Match language text) (code : List Char) (start : Nat) :
    m.Declares start (ofPhrase code (start + m.span.start) m.phrase) := by
  obtain ⟨w, hw, haccess⟩ := m.access
  refine ⟨rfl, ?_, rfl⟩
  rw [haccess, String.ofList_toList]
  exact ofKeyword?_eq_some hw haccess

end Match

theorem exists_match (h : (o, p) ∈ (Member.fieldForm language).within skeleton range) :
    ∃ m : Match language (slice skeleton range),
      (range.start + m.span.start, m.phrase) = (o, p) := by
  obtain ⟨before, back, ⟨hslice, _⟩, rfl, hstart, hread⟩ := Member.Form.exists_place_of_mem_within h
  have hform := Member.fieldForm_breaks language
  obtain ⟨w, hw, haccess⟩ := Member.Form.exists_access hread
  obtain ⟨afterName, rfl, htail⟩ := hform.exists_afterName hread
  obtain ⟨gap, after, hgap, rfl, hend⟩ := Member.fieldTail_eq_some htail
  obtain ⟨_, _, _, _, _, _, hlead, _⟩ := Member.Form.recognize_eq_some hread
  obtain ⟨_, _, hne, hblank⟩ := hform.leads hlead
  obtain ⟨c, lead, hcons⟩ := List.exists_cons_of_ne_nil hne
  have hword := (isIdentifier_accessKeywords language w hw).isWord
  let m : Match language (slice skeleton range) := {
    before := before
    phrase := p
    after := after
    parts := by simpa [Member.Phrase.text] using hslice
    access := ⟨w, hw, haccess⟩
    starts := hstart
    apart := ⟨c, by simp [Member.Phrase.declarator, hcons], hblank c (by simp [hcons])⟩
    unbroken := (unbroken_of_isWord (haccess ▸ hword)).append (hform.unbroken_declarator hread)
    name := Member.Form.isIdentifier_name hread
    tail := ⟨gap, hgap, hend.imp And.left fun ⟨initializer, htext, _⟩ => ⟨initializer, htext⟩⟩ }
  exact ⟨m, rfl⟩

/-- Fields that are declared in a stretch of a skeleton, in the order of the text. No declaration
reaches into another one. -/
structure AreDeclaredIn (fields : List Field) (language : Language) (skeleton : List Char)
    (range : Span) : Prop where
  stretch : StandsAt (slice skeleton range) range.start skeleton ∧
    range.start + byteLength (slice skeleton range) = range.stop
  increasing : fields.Pairwise fun f g => f.offset < g.offset
  declared : ∃ ms : List (Match language (slice skeleton range)),
    List.Forall₂ (Match.Declares range.start) ms fields ∧
      ms.Pairwise fun m n => m.span.stop ≤ n.span.start

theorem areDeclaredIn_declared (source : Masked) (hrange : IsExtent source.skeleton range) :
    AreDeclaredIn (declared language source range) language source.skeleton range := by
  obtain ⟨front, behind, hskeleton, hfront, hsize⟩ := hrange.exists_parts
  have hform := Member.fieldForm_breaks language
  have hincreasing := (Member.fieldForm language).pairwise_within source.skeleton range
  have hapart : ((Member.fieldForm language).within source.skeleton range).Pairwise fun a b =>
      a.1 + byteLength a.2.text ≤ b.1 := by
    refine List.pairwise_map.mpr ((pairwise_occurrencesFrom Member.Phrase.text (fun hread => ?_)
      0 none 0 _).imp fun hle => ?_)
    · obtain ⟨hne, hprefix⟩ := Member.exists_rest_of_field hform rfl hread
      exact ⟨hne, rfl, hprefix⟩
    · rw [Nat.add_assoc]
      exact Nat.add_le_add_left hle _
  -- What is found is what some list of matches declares.
  obtain ⟨ms, hms⟩ : (Member.fieldForm language).within source.skeleton range ∈ Set.range (List.map
      fun m : Match language (slice source.skeleton range) =>
        (range.start + m.span.start, m.phrase)) := by
    rw [Set.range_list_map]
    exact fun _ hmem => exists_match hmem
  rw [declared, ← hms, List.map_map]
  rw [← hms, List.pairwise_map] at hincreasing hapart
  refine ⟨⟨⟨front, behind, hskeleton, hfront⟩, hsize⟩, List.pairwise_map.mpr hincreasing, ms, ?_,
    hapart.imp fun {m n} hle => ?_⟩
  · rw [List.forall₂_map_right_iff, List.forall₂_same]
    exact fun m _ => m.declares_ofPhrase source.code range.start
  · simp only [Match.span, byteLength_append] at hle ⊢
    omega

/-! ## The text of a stretch -/

/-- Two stretches show the same: they are alike in the skeleton, and in the code wherever the code
can be cut. -/
structure ShowSame (source other : Masked) (range range' : Span) : Prop where
  skeleton : slice source.skeleton range = slice other.skeleton range'
  code : ∀ start stop, stop ≤ byteLength (slice source.skeleton range) →
    cut? source.code ⟨range.start + start, range.start + stop⟩ =
      cut? other.code ⟨range'.start + start, range'.start + stop⟩

def shift (start : Nat) (f : Field) : Field := { f with offset := start + f.offset }

/-- Behind a word of the skeleton the code can be cut. -/
theorem isBoundary_code {word : List Char} {offset : Nat} (hword : IsIdentifier word)
    (h : StandsAt word offset (Masked.ofSource source).skeleton) :
    isBoundary (offset + byteLength word) (Masked.ofSource source).code = true := by
  obtain ⟨⟨a, b, hplace, rfl⟩, _⟩ :=
    Masked.standsAt_of_skeleton hword.ne_nil (space_not_mem hword) h
  refine isBoundary_iff.mpr ⟨a ++ word, b, ?_, (byteLength_append a word).symm⟩
  rw [hplace, List.append_assoc]

/-- From the access keyword of a field to its name the code can be cut. -/
theorem isExtent_declarator (hrange : IsExtent (Masked.ofSource source).skeleton range)
    (m : Match language (slice (Masked.ofSource source).skeleton range)) :
    IsExtent (Masked.ofSource source).code
      ⟨range.start + m.span.start + byteLength m.phrase.access,
        range.start + m.span.start + byteLength m.phrase.access +
          byteLength m.phrase.declarator⟩ := by
  obtain ⟨front, behind, hparts, hfront, _⟩ := hrange.exists_parts
  obtain ⟨w, hw, haccess⟩ := m.access
  have hword := isIdentifier_accessKeywords language w hw
  rw [← haccess] at hword
  rw [m.parts] at hparts
  have hkeyword : StandsAt m.phrase.access (byteLength (front ++ m.before))
      (Masked.ofSource source).skeleton :=
    ⟨front ++ m.before, m.phrase.declarator ++ m.phrase.tail ++ m.after ++ behind,
      by simp [hparts, Member.Phrase.text], rfl⟩
  have hname : StandsAt m.phrase.name (byteLength (front ++ m.before ++ m.phrase.access ++
      m.phrase.lead ++ m.phrase.type ++ m.phrase.gap)) (Masked.ofSource source).skeleton :=
    ⟨_, m.phrase.tail ++ m.after ++ behind,
      by simp [hparts, Member.Phrase.text, Member.Phrase.declarator], rfl⟩
  have hstart := isBoundary_code hword hkeyword
  have hstop := isBoundary_code m.name hname
  simp only [byteLength_append, hfront, Nat.add_assoc] at hstart hstop
  simp only [Match.span, Member.Phrase.declarator, byteLength_append, Nat.add_assoc]
  exact isExtent_of_isBoundary (by omega) hstart hstop

/-- A field is declared alike where the same is shown. -/
theorem ofPhrase_eq_shift {other : Masked} {range' : Span}
    (hrange : IsExtent (Masked.ofSource source).skeleton range)
    (hsame : ShowSame (.ofSource source) other range range')
    (m : Match language (slice (Masked.ofSource source).skeleton range)) :
    ofPhrase other.code (range'.start + m.span.start) m.phrase =
      shift range'.start { ofPhrase (Masked.ofSource source).code (range.start + m.span.start)
        m.phrase with offset := m.span.start } := by
  have hsize : m.span.start + byteLength m.phrase.access + byteLength m.phrase.declarator ≤
      byteLength (slice (Masked.ofSource source).skeleton range) := by
    have hlength := congrArg byteLength m.parts
    simp only [Member.Phrase.text, byteLength_append] at hlength
    simp only [Match.span]
    omega
  have hcut := hsame.code (m.span.start + byteLength m.phrase.access) _ hsize
  simp only [← Nat.add_assoc] at hcut
  rw [cut?_of_isExtent (isExtent_declarator hrange m)] at hcut
  simp only [ofPhrase, shift, slice_of_cut?_eq_some hcut.symm]

/-- The fields of a stretch are the same wherever the same is shown, with the offsets shifted. -/
theorem exists_fields_of_showSame {other : Masked} {range' : Span}
    (hrange : IsExtent (Masked.ofSource source).skeleton range)
    (hsame : ShowSame (.ofSource source) other range range') :
    ∃ fields : List Field,
      declared language (.ofSource source) range = fields.map (shift range.start) ∧
        declared language other range' = fields.map (shift range'.start) := by
  refine ⟨((Member.fieldForm language).occurrences
    (slice (Masked.ofSource source).skeleton range)).map fun found =>
      { ofPhrase (Masked.ofSource source).code (range.start + found.1) found.2 with
        offset := found.1 }, ?_, ?_⟩
  · simp only [declared, Member.Form.within, List.map_map]
    rfl
  · simp only [declared, Member.Form.within, List.map_map, ← hsame.skeleton]
    apply List.map_congr_left
    rintro ⟨o, p⟩ hmem
    obtain ⟨m, hm⟩ := exists_match (List.mem_map.mpr ⟨(o, p), hmem, rfl⟩ :
      (range.start + o, p) ∈ (Member.fieldForm language).within _ range)
    obtain ⟨ho, rfl⟩ := Prod.mk.inj hm
    obtain rfl := Nat.add_left_cancel ho
    exact ofPhrase_eq_shift hrange hsame m

/-- A stretch that can be cut out of the code shows the same on its own. -/
theorem showSame_cut {source : Masked} (hskeleton : IsExtent source.skeleton range)
    (hcode : IsExtent source.code range) :
    ShowSame source (source.cut range) range (whole (slice source.skeleton range)) := by
  have hwhole : slice (slice source.skeleton range) (whole (slice source.skeleton range)) =
      slice source.skeleton range := by
    simpa [whole] using slice_append [] (slice source.skeleton range) []
  refine ⟨hwhole.symm, fun start stop hstop => ?_⟩
  obtain ⟨_, _, _, _, hsize⟩ := hskeleton.exists_parts
  obtain ⟨front, behind, hparts, hfront, hsize'⟩ := hcode.exists_parts
  have hcut := @cut?_part front (slice source.code range) behind start stop (by omega)
  rw [← hparts, hfront] at hcut
  simpa [whole, Masked.cut] using hcut

/-- The fields of a stretch stand in it, and they depend on what it shows only. Where it shows the
same as another stretch, the fields are the same up to where the stretches start; cut out of its
source, it shows what it shows there. -/
theorem declared_isPlaced_and_local (hrange : IsExtent (Masked.ofSource source).skeleton range) :
    AreDeclaredIn (declared language (.ofSource source) range) language
        (Masked.ofSource source).skeleton range ∧
      (∀ (other : Masked) (range' : Span), ShowSame (.ofSource source) other range range' →
        ∃ fields : List Field,
          declared language (.ofSource source) range = fields.map (shift range.start) ∧
            declared language other range' = fields.map (shift range'.start)) ∧
      (IsExtent (Masked.ofSource source).code range →
        ShowSame (.ofSource source) ((Masked.ofSource source).cut range) range
          (whole (slice (Masked.ofSource source).skeleton range))) :=
  ⟨areDeclaredIn_declared _ hrange, fun _ _ => exists_fields_of_showSame hrange,
    showSame_cut hrange⟩

/-- A source in which an access keyword is the end of a word. -/
def wordInside : List Char := "xprivate int a = f(1);".toList

/-- A field starts at the start of a stretch, although no word starts there in the source. -/
theorem declared_isPlaced_and_local_wordInside :
    IsExtent (Masked.ofSource wordInside).skeleton ⟨1, 22⟩ ∧
      AreDeclaredIn [⟨1, .privateAccess, "int", "a", "int a"⟩] .java
        (Masked.ofSource wordInside).skeleton ⟨1, 22⟩ ∧
      ∃ fields : List Field,
        [⟨1, .privateAccess, "int", "a", "int a"⟩] = fields.map (shift 1) ∧
          declared .java ((Masked.ofSource wordInside).cut ⟨1, 22⟩) ⟨0, 21⟩ =
            fields.map (shift 0) := by
  have hrange : IsExtent (Masked.ofSource wordInside).skeleton ⟨1, 22⟩ := by decide +kernel
  have hcode : IsExtent (Masked.ofSource wordInside).code ⟨1, 22⟩ := by decide +kernel
  have hfields : declared .java (.ofSource wordInside) ⟨1, 22⟩ =
      [⟨1, .privateAccess, "int", "a", "int a"⟩] := by decide +kernel
  have hwhole : whole (slice (Masked.ofSource wordInside).skeleton ⟨1, 22⟩) = ⟨0, 21⟩ := by
    decide +kernel
  obtain ⟨hplaced, hlocal, hcut⟩ := @declared_isPlaced_and_local .java _ _ hrange
  have hsame := hcut hcode
  rw [hwhole] at hsame
  have hshifted := hlocal _ _ hsame
  rw [hfields] at hplaced hshifted
  exact ⟨hrange, hplaced, hshifted⟩

end Field

end ClassDiagram
