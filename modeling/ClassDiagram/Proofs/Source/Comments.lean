import ClassDiagram.Extraction
import ClassDiagram.Proofs.Source.Program
import ClassDiagram.Proofs.Source.Segments
import ClassDiagram.Resolution

/-!
# Comments

The code of a source is the source with its comments blanked. Read again, it has no comments, and
all other characters keep their layers: a comment leaves white space of at least two characters, so
what stands on its two sides does not come together. Everything that is read from a source can
therefore be read from its code.
-/

namespace ClassDiagram.Source

open Text

/-! ## The code of what is left of a source -/

/-- What becomes of a layered character in the code. A comment leaves white space in program text.
-/
def uncommented : Char × Layer → List (Char × Layer)
  | (c, .comment) => (blank c).map (·, .program)
  | tagged => [tagged]

theorem flatMap_inCode_uncommented (tagged : Char × Layer) :
    (uncommented tagged).flatMap inCode = inCode tagged := by
  obtain ⟨c, layer⟩ := tagged
  cases layer <;> simp [uncommented, inCode, List.flatMap_map]

theorem flatMap_inSkeleton_uncommented (tagged : Char × Layer) :
    (uncommented tagged).flatMap inSkeleton = inSkeleton tagged := by
  obtain ⟨c, layer⟩ := tagged
  cases layer <;> simp [uncommented, inSkeleton, List.flatMap_map]

/-- The code of a text that is read from a state, after the characters `beforeLast` and `last`. -/
def codeFrom (state : State) (beforeLast last : Option Char) (cs : List Char) : List Char :=
  (layersOnto [] state beforeLast last cs).flatMap inCode

theorem codeFrom_cons (state : State) (beforeLast last : Option Char) (c : Char)
    (cs : List Char) :
    codeFrom state beforeLast last (c :: cs) =
      inCode (c, (state.read beforeLast last c cs).1) ++
        codeFrom (state.read beforeLast last c cs).2 last (some c) cs := by
  rw [codeFrom, layersOnto_cons, List.flatMap_cons, codeFrom]

theorem inCode_of_ne_comment {c : Char} {layer : Layer} (h : layer ≠ .comment) :
    inCode (c, layer) = [c] := by
  cases layer with
  | program => rfl
  | literal => rfl
  | comment => exact absurd rfl h

theorem uncommented_of_ne_comment {c : Char} {layer : Layer} (h : layer ≠ .comment) :
    uncommented (c, layer) = [(c, layer)] := by
  cases layer with
  | program => rfl
  | literal => rfl
  | comment => exact absurd rfl h

theorem blank_ne_nil (c : Char) : blank c ≠ [] := by
  intro hnil
  have hsize := byteLength_blank c
  have hpos := c.utf8Size_pos
  rw [hnil, byteLength_nil] at hsize
  omega

/-- The white space that stands for a character ends with a character that makes no string
verbatim. -/
theorem getLast?_blank_or (c : Char) (last : Option Char) :
    ∀ d ∈ ['@', '$'], (blank c).getLast?.or last ≠ some d := by
  intro d hd hlast
  rw [List.getLast?_eq_some_getLast (blank_ne_nil c), Option.some_or] at hlast
  have hblank := isBlank_of_mem_blank (List.getLast_mem (blank_ne_nil c))
  rw [Option.some.inj hlast] at hblank
  have hnot : ∀ d ∈ ['@', '$'], isBlank d = false := by decide
  rw [hnot d hd] at hblank
  exact Bool.false_ne_true hblank

/-- A character at the head of the code that is no white space stands at the head of the text. -/
theorem exists_of_codeFrom {state : State} {beforeLast last : Option Char} {c : Char}
    {cs further : List Char} (hc : isBlank c = false)
    (h : codeFrom state beforeLast last cs = c :: further) :
    ∃ rest, cs = c :: rest ∧
      further = codeFrom (state.read beforeLast last c rest).2 last (some c) rest := by
  cases cs with
  | nil => exact absurd h (by simp [codeFrom, layersOnto])
  | cons d rest =>
      rw [codeFrom_cons] at h
      by_cases hcomment : (state.read beforeLast last d rest).1 = .comment
      · -- White space would stand at the head.
        obtain ⟨b, bs, hblank⟩ := List.exists_cons_of_ne_nil (blank_ne_nil d)
        rw [hcomment, inCode, hblank, List.cons_append] at h
        have hb := isBlank_of_mem_blank (hblank ▸ List.mem_cons_self : b ∈ blank d)
        rw [(List.cons.inj h).1, hc] at hb
        exact absurd hb Bool.false_ne_true
      · rw [inCode_of_ne_comment hcomment] at h
        obtain ⟨rfl, hfurther⟩ := List.cons.inj h
        exact ⟨rest, rfl, hfurther.symm⟩

/-! ## Reading the code -/

/-- With the code behind it, a character that is no comment is read as with the text behind it. -/
theorem Mode.read_codeFrom {mode : Mode} {beforeLast last : Option Char} {c : Char}
    {cs : List Char} (h : (mode.read beforeLast last c cs).1 ≠ .comment) :
    mode.read beforeLast last c (codeFrom (mode.read beforeLast last c cs).2 last (some c) cs) =
      mode.read beforeLast last c cs := by
  -- The marks that the reading looks for ahead are in the code only if they are in the text.
  have hmark : ∀ {d : Char}, isBlank d = false → ∀ {state further},
      codeFrom state last (some c) cs = d :: further → ∃ rest, cs = d :: rest :=
    fun hd _ _ hcode => (exists_of_codeFrom hd hcode).imp fun _ hparts => hparts.1
  have hslash := @hmark '/' (by decide)
  have hstar := @hmark '*' (by decide)
  have hquote := @hmark '"' (by decide)
  have hquotes : ∀ {state further}, codeFrom state last (some c) cs = '"' :: '"' :: further →
      ∃ rest, cs = '"' :: '"' :: rest := fun {_ _} hcode => by
    obtain ⟨rest, rfl, hrest⟩ := exists_of_codeFrom (by decide) hcode
    obtain ⟨rest, rfl, _⟩ := exists_of_codeFrom (by decide) hrest.symm
    exact ⟨rest, rfl⟩
  have hany : ∀ {state d further}, codeFrom state last (some c) cs = d :: further →
      ∃ e rest, cs = e :: rest := fun {_ _ _} hcode => by
    cases cs with
    | nil => exact absurd hcode (by simp [codeFrom, layersOnto])
    | cons e rest => exact ⟨e, rest, rfl⟩
  fun_cases Mode.read mode beforeLast last c cs
  -- comments
  case case1 | case2 | case7 | case8 => exact absurd rfl h
  case case9 => exact absurd (by simp [Mode.read]) h
  -- tokens of several characters, which the code shows
  case case3 | case17 => rw [codeFrom_cons, codeFrom_cons]; rfl
  case case10 | case14 | case19 => rw [codeFrom_cons]; rfl
  -- characters that are read alike whatever follows
  case case5 | case11 | case12 | case20 | case21 => rfl
  -- characters that would start such a token
  all_goals
    simp only [Mode.read]
    grind

/-- A state in which no comment is being read. -/
def State.IsOutside : State → Prop
  | .within mode => mode ≠ .lineComment ∧ mode ≠ .blockComment
  | .passing _ layer next => layer ≠ .comment ∧ next ≠ .lineComment ∧ next ≠ .blockComment

/-- A source and its code read side by side: the state of the one and the characters before, and
those of the other. `rest` is what is left of the source. Inside a comment of the source, the code
is in program text. -/
inductive SideBySide (rest : List Char) :
    State → Option Char → Option Char → State → Option Char → Option Char → Prop
  | outside {state : State} {beforeLast last beforeLast' last' : Option Char}
      (hstate : state.IsOutside) (hseen : SeenAlike beforeLast last beforeLast' last') :
      SideBySide rest state beforeLast last state beforeLast' last'
  | comment {mode : Mode} {beforeLast last beforeLast' last' : Option Char}
      (hmode : mode = .lineComment ∨ mode = .blockComment) :
      SideBySide rest (.within mode) beforeLast last (.within .program) beforeLast' last'
  | opening {beforeLast last beforeLast' last' : Option Char} :
      SideBySide rest (.passing 1 .comment .blockComment) beforeLast last
        (.within .program) beforeLast' last'
  | closing {beforeLast last beforeLast' last' : Option Char} (hrest : rest.head? = some '/') :
      SideBySide rest (.passing 1 .comment .program) beforeLast last
        (.within .program) beforeLast' last'

theorem State.isOutside_read {state : State} (hstate : state.IsOutside)
    {beforeLast last : Option Char} {c : Char} {cs : List Char}
    (h : (state.read beforeLast last c cs).1 ≠ .comment) :
    (state.read beforeLast last c cs).2.IsOutside := by
  cases state with
  | within mode =>
      rw [State.read] at h ⊢
      fun_cases Mode.read mode beforeLast last c cs
      case case1 | case2 | case7 | case8 => exact absurd rfl h
      case case9 => exact absurd (by simp [Mode.read]) h
      all_goals simp [State.IsOutside]
  | passing further layer next =>
      rw [State.read]
      split
      next => exact hstate.2
      next => exact hstate

theorem State.isOutside_program : (State.within .program).IsOutside := ⟨by decide, by decide⟩

/-- Outside comments, a comment starts in program text. -/
theorem State.read_of_isOutside {state : State} (hstate : state.IsOutside)
    {beforeLast last : Option Char} {c : Char} {cs : List Char}
    (h : (state.read beforeLast last c cs).1 = .comment) :
    state = .within .program ∧
      ((state.read beforeLast last c cs).2 = .within .lineComment ∨
        (state.read beforeLast last c cs).2 = .passing 1 .comment .blockComment) := by
  cases state with
  | within mode =>
      rw [State.read] at h ⊢
      fun_cases Mode.read mode beforeLast last c cs
      case case1 | case2 => simp
      case case7 => exact absurd rfl hstate.1
      case case8 | case9 => exact absurd rfl hstate.2
      all_goals
        simp only [Mode.read] at h
        grind
  | passing further layer next => exact absurd h hstate.1

/-- A comment of the source is white space in the code, which is read in program text. -/
theorem SideBySide.of_comment {state state' : State}
    {beforeLast last beforeLast' last' : Option Char} {c : Char} {cs : List Char}
    (h : SideBySide (c :: cs) state beforeLast last state' beforeLast' last')
    (hcomment : (state.read beforeLast last c cs).1 = .comment) :
    state' = .within .program ∧
      ∀ beforeBlank blank, (∀ d ∈ ['@', '$'], blank ≠ some d) →
        SideBySide cs (state.read beforeLast last c cs).2 last (some c)
          (.within .program) beforeBlank blank := by
  cases h with
  | outside hstate hseen =>
      obtain ⟨hprogram, hnext⟩ := State.read_of_isOutside hstate hcomment
      refine ⟨hprogram, fun _ _ _ => ?_⟩
      rcases hnext with hnext | hnext
      · rw [hnext]
        exact .comment (.inl rfl)
      · rw [hnext]
        exact .opening
  | comment hmode =>
      refine ⟨rfl, fun _ _ hblank => ?_⟩
      rcases hmode with rfl | rfl
      · by_cases hbreak : c = '\n'
        · subst hbreak
          exact .outside State.isOutside_program (seenAlike_of_ne (by simp) hblank _ _)
        · simp only [State.read, Mode.read, if_neg hbreak]
          exact .comment (.inl rfl)
      · simp only [State.read, Mode.read]
        split
        next => exact .closing rfl
        next => exact .comment (.inr rfl)
  | opening => exact ⟨rfl, fun _ _ _ => .comment (.inr rfl)⟩
  | closing hrest =>
      obtain rfl : c = '/' := Option.some.inj hrest
      refine ⟨rfl, fun _ _ hblank => ?_⟩
      exact .outside State.isOutside_program (seenAlike_of_ne (by simp) hblank _ _)

/-- Any other character is read alike in the source and in its code. -/
theorem SideBySide.of_ne_comment {state state' : State}
    {beforeLast last beforeLast' last' : Option Char} {c : Char} {cs : List Char}
    (h : SideBySide (c :: cs) state beforeLast last state' beforeLast' last')
    (hcomment : (state.read beforeLast last c cs).1 ≠ .comment) :
    state'.read beforeLast' last' c
          (codeFrom (state.read beforeLast last c cs).2 last (some c) cs) =
        state.read beforeLast last c cs ∧
      SideBySide cs (state.read beforeLast last c cs).2 last (some c)
        (state.read beforeLast last c cs).2 last' (some c) := by
  cases h with
  | outside hstate hseen =>
      refine ⟨?_, .outside (State.isOutside_read hstate hcomment) (hseen.next c)⟩
      rw [← state.read_congr hseen.1]
      cases state with
      | within mode => exact Mode.read_codeFrom hcomment
      | passing further layer next => rfl
  | comment hmode =>
      refine absurd ?_ hcomment
      rcases hmode with rfl | rfl
      · rfl
      · simp only [State.read, Mode.read]
        split <;> rfl
  | opening => exact absurd rfl hcomment
  | closing => exact absurd rfl hcomment

theorem isPlain_of_mem_blank {c d : Char} (h : d ∈ blank c) : isPlain d = true :=
  isPlain_of_forall (by decide) (isBlank_of_mem_blank h)

/-- The code of a source has the layers of the source, without its comments. -/
theorem layersOnto_codeFrom {state state' : State}
    {beforeLast last beforeLast' last' : Option Char} {cs : List Char}
    (h : SideBySide cs state beforeLast last state' beforeLast' last') :
    layersOnto [] state' beforeLast' last' (codeFrom state beforeLast last cs) =
      (layersOnto [] state beforeLast last cs).flatMap uncommented := by
  induction cs generalizing state beforeLast last state' beforeLast' last' with
  | nil => rfl
  | cons c cs ih =>
      rw [codeFrom_cons, layersOnto_cons state, List.flatMap_cons]
      by_cases hcomment : (state.read beforeLast last c cs).1 = .comment
      · obtain ⟨rfl, hnext⟩ := h.of_comment hcomment
        obtain ⟨beforeBlank, hlayers⟩ := layersOnto_plain (fun _ => isPlain_of_mem_blank)
          beforeLast' last' (codeFrom (state.read beforeLast last c cs).2 last (some c) cs)
        rw [hcomment, inCode, hlayers, ih (hnext _ _ (getLast?_blank_or c last')), uncommented]
      · obtain ⟨hread, hnext⟩ := h.of_ne_comment hcomment
        rw [inCode_of_ne_comment hcomment, List.singleton_append, layersOnto_cons, hread, ih hnext,
          uncommented_of_ne_comment hcomment, List.singleton_append]

theorem layers_code (source : List Char) :
    layers (Masked.ofSource source).code = (layers source).flatMap uncommented :=
  layersOnto_codeFrom (.outside State.isOutside_program ⟨rfl, Iff.rfl⟩)

/-- Masking a source again finds nothing more to mask. -/
theorem ofSource_code (source : List Char) :
    Masked.ofSource (Masked.ofSource source).code = Masked.ofSource source := by
  rw [Masked.ofSource, layers_code, List.flatMap_assoc, List.flatMap_assoc]
  simp only [flatMap_inCode_uncommented, flatMap_inSkeleton_uncommented]
  rfl

end ClassDiagram.Source

namespace ClassDiagram

open Source

/-- Comments have no influence: the code of a source is masked as the source is, its characters
have the same layers, and the same is extracted and resolved from it. Of a source in segments, the
code has blanks for the comments and all else as it is. -/
theorem comments_without_influence (source : List Char) :
    Masked.ofSource (Masked.ofSource source).code = Masked.ofSource source ∧
      layers (Masked.ofSource source).code = (layers source).flatMap uncommented ∧
      (∀ mode language,
        extract mode language (Masked.ofSource source).code = extract mode language source) ∧
      (∀ language owner known,
        resolve language (Masked.ofSource source).code owner known =
          resolve language source owner known) ∧
      ∀ segments, Separate segments → segments.flatMap Segment.text = source →
        (Masked.ofSource source).code = segments.flatMap Segment.inCode := by
  refine ⟨ofSource_code source, layers_code source, fun mode language => ?_,
    fun language owner known => ?_, ?_⟩
  · rw [extract, ofSource_code, extract]
  · rw [resolve, ofSource_code, resolve]
  · rintro segments hseparate rfl
    rw [Masked.ofSource_segments hseparate]

/-- A class with two fields, one of them in a comment. -/
def commentedField : List Segment :=
  [.program "class A \x7b ".toList (by decide), .lineComment " private int x;".toList (by decide),
    .program "private int y; \x7d".toList (by decide)]

theorem comments_without_influence_commentedField :
    Separate commentedField ∧
      commentedField.flatMap Segment.text =
        "class A \x7b // private int x;\nprivate int y; \x7d".toList ∧
      (Masked.ofSource (commentedField.flatMap Segment.text)).code =
        "class A \x7b                  \nprivate int y; \x7d".toList ∧
      extract .fullSignature .java (commentedField.flatMap Segment.text) =
        ⟨"A", ["-int y"], []⟩ := by
  have hseparate : Separate commentedField := by decide
  obtain ⟨_, _, hextract, _, hcode⟩ :=
    comments_without_influence (commentedField.flatMap Segment.text)
  have hblanked : (Masked.ofSource (commentedField.flatMap Segment.text)).code =
      "class A \x7b                  \nprivate int y; \x7d".toList :=
    (hcode commentedField hseparate rfl).trans (by decide)
  refine ⟨hseparate, by decide, hblanked, ?_⟩
  rw [← hextract, hblanked]
  decide +kernel

end ClassDiagram
