import ClassDiagram.Proofs.Source.Masking

/-!
# Sources in segments

A source that is put together from program text, literals and comments is read in these segments,
in whatever order they stand. A comment mark in a literal starts no comment, a quote in a comment
opens no literal, and an escaped delimiter closes none. Only an empty string has to be set apart
from the string after it, since three quotes start a text block.
-/

namespace ClassDiagram.Source

/-! ## Segments -/

/-- What stands on both sides of a literal. -/
inductive Delimiter
  | quote
  | apostrophe
deriving DecidableEq

def Delimiter.char : Delimiter → Char
  | .quote => '"'
  | .apostrophe => '\''

/-- What the reading is inside of between the delimiters. -/
def Delimiter.mode : Delimiter → Mode
  | .quote => .string false
  | .apostrophe => .character

/-- A part of the content of a literal. -/
inductive Piece (delimiter : Delimiter)
  | shown (c : Char) (h : c ≠ delimiter.char ∧ c ≠ '\\' ∧ c ≠ '\n')
  | escaped (c : Char) (h : c ≠ '\n')

def Piece.text {delimiter : Delimiter} : Piece delimiter → List Char
  | .shown c _ => [c]
  | .escaped c _ => ['\\', c]

/-- A part of a source. -/
inductive Segment
  | program (text : List Char) (h : ∀ c ∈ text, c ∉ ['"', '\'', '/', '@'])
  | literal (delimiter : Delimiter) (content : List (Piece delimiter))
  /-- A comment up to the end of its line. -/
  | lineComment (text : List Char) (h : '\n' ∉ text)
  | blockComment (text : List Char) (h : ¬ ['*', '/'] <:+: text)

namespace Segment

def text : Segment → List Char
  | .program text _ => text
  | .literal delimiter content =>
      delimiter.char :: (content.flatMap Piece.text ++ [delimiter.char])
  | .lineComment text _ => '/' :: '/' :: (text ++ ['\n'])
  | .blockComment text _ => '/' :: '*' :: (text ++ ['*', '/'])

/-- What the code has of a segment: all of it, unless it is a comment. -/
def inCode : Segment → List Char
  | .lineComment text h => (Segment.lineComment text h).text.flatMap blank
  | .blockComment text h => (Segment.blockComment text h).text.flatMap blank
  | segment => segment.text

/-- What the skeleton has of a segment: of a literal, its delimiters around blanks. -/
def inSkeleton : Segment → List Char
  | .literal delimiter content =>
      delimiter.char :: ((content.flatMap Piece.text).flatMap blank ++ [delimiter.char])
  | segment => segment.inCode

/-- The characters of a segment in their layers. -/
def layers : Segment → List (Char × Layer)
  | .program text _ => text.map (·, .program)
  | .literal delimiter content =>
      (delimiter.char, .program) ::
        ((content.flatMap Piece.text).map (·, .literal) ++ [(delimiter.char, .program)])
  | .lineComment text h => (Segment.lineComment text h).text.map (·, .comment)
  | .blockComment text h => (Segment.blockComment text h).text.map (·, .comment)

theorem flatMap_inCode_layers (segment : Segment) :
    segment.layers.flatMap Source.inCode = segment.inCode := by
  cases segment <;> simp [layers, inCode, text, Source.inCode, List.flatMap_map]

theorem flatMap_inSkeleton_layers (segment : Segment) :
    segment.layers.flatMap Source.inSkeleton = segment.inSkeleton := by
  cases segment <;>
    simp [layers, inSkeleton, inCode, text, Source.inSkeleton, List.flatMap_map]

end Segment

/-- No empty string is directly followed by another string, nor with nothing in between but segments
without text. -/
def Separate : List Segment → Prop
  | [] => True
  | segment :: rest =>
      (segment.text = ['"', '"'] → (rest.flatMap Segment.text).head? ≠ some '"') ∧ Separate rest

instance instDecidableSeparate : (segments : List Segment) → Decidable (Separate segments)
  | [] => isTrue trivial
  | _ :: rest =>
      have := instDecidableSeparate rest
      inferInstanceAs (Decidable (_ ∧ _))

/-! ## Reading one segment -/

theorem layers_cons_program {c : Char} (hc : c ∉ ['"', '\'', '/', '@']) (rest : List Char) :
    layers (c :: rest) = (c, .program) :: layers rest := by
  simp only [List.mem_cons, List.not_mem_nil, or_false, not_or] at hc
  obtain ⟨hquote, happostrophe, hslash, hat⟩ := hc
  have hplain : isPlain c = true := by simp [isPlain, hquote, happostrophe, hslash]
  -- A dollar makes a string verbatim only after an at sign.
  have hseen : SeenAlike none (some c) none none := by
    refine ⟨?_, by simp [hat]⟩
    unfold opensVerbatim
    grind
  rw [layers, layersOnto_cons, read_of_isPlain hplain, hseen.layersOnto_eq]
  rfl

theorem layers_program {text : List Char} (h : ∀ c ∈ text, c ∉ ['"', '\'', '/', '@'])
    (rest : List Char) : layers (text ++ rest) = text.map (·, .program) ++ layers rest := by
  induction text with
  | nil => rfl
  | cons c text ih =>
      rw [List.cons_append, layers_cons_program (h c List.mem_cons_self),
        ih fun d hd => h d (List.mem_cons_of_mem _ hd)]
      rfl

theorem Delimiter.char_ne (delimiter : Delimiter) :
    delimiter.char ≠ '@' ∧ delimiter.char ≠ '$' := by
  cases delimiter <;> decide

theorem Delimiter.read_char (delimiter : Delimiter) (beforeLast last : Option Char)
    (rest : List Char) :
    (State.within delimiter.mode).read beforeLast last delimiter.char rest =
      (.program, .within .program) := by
  cases delimiter <;> rfl

/-- A character between delimiters that is not escaped belongs to the literal. -/
theorem Delimiter.read_shown {delimiter : Delimiter} {c : Char}
    (h : c ≠ delimiter.char ∧ c ≠ '\\' ∧ c ≠ '\n') (beforeLast last : Option Char)
    (rest : List Char) :
    (State.within delimiter.mode).read beforeLast last c rest =
      (.literal, .within delimiter.mode) := by
  obtain ⟨hdelimiter, hescape, hbreak⟩ := h
  cases delimiter <;> simp only [Delimiter.char] at hdelimiter <;>
    simp only [State.read, Delimiter.mode, Mode.read] <;> grind

/-- The character after a backslash belongs to the literal, whatever it is. -/
theorem Delimiter.layersOnto_escaped (delimiter : Delimiter) (beforeLast last : Option Char)
    (c : Char) (rest : List Char) :
    layersOnto [] (.within delimiter.mode) beforeLast last ('\\' :: c :: rest) =
      ('\\', .literal) :: (c, .literal) ::
        layersOnto [] (.within delimiter.mode) (some '\\') (some c) rest := by
  cases delimiter <;> rw [layersOnto_cons, layersOnto_cons] <;> rfl

/-- A literal is read to its closing delimiter. -/
theorem layersOnto_content {delimiter : Delimiter} (content : List (Piece delimiter))
    (beforeLast last : Option Char) (rest : List Char) :
    layersOnto [] (.within delimiter.mode) beforeLast last
        (content.flatMap Piece.text ++ delimiter.char :: rest) =
      (content.flatMap Piece.text).map (·, .literal) ++
        (delimiter.char, .program) :: layers rest := by
  induction content generalizing beforeLast last with
  | nil =>
      obtain ⟨hat, hdollar⟩ := delimiter.char_ne
      rw [List.flatMap_nil, List.nil_append, layersOnto_cons, delimiter.read_char,
        layersOnto_of_last _ _ (by simpa using hat) (by simpa using hdollar)]
      rfl
  | cons piece content ih =>
      rw [List.flatMap_cons, List.append_assoc, List.map_append, List.append_assoc]
      cases piece with
      | shown c h =>
          rw [Piece.text, List.singleton_append, layersOnto_cons, Delimiter.read_shown h, ih]
          rfl
      | escaped c h =>
          rw [Piece.text, List.cons_append, List.singleton_append, delimiter.layersOnto_escaped, ih]
          rfl

/-- A delimiter in program text opens a literal, unless it starts a text block. -/
theorem layers_delimiter {delimiter : Delimiter} {rest : List Char}
    (hrest : delimiter = .quote → ¬ ['"', '"'] <+: rest) :
    layers (delimiter.char :: rest) =
      (delimiter.char, .program) ::
        layersOnto [] (.within delimiter.mode) none (some delimiter.char) rest := by
  rw [layers, layersOnto_cons]
  cases delimiter with
  | apostrophe => rfl
  | quote =>
      have hblock : ∀ further, rest ≠ '"' :: '"' :: further := by
        rintro further rfl
        exact hrest rfl ⟨further, rfl⟩
      have hread : (State.within .program).read none none '"' rest =
          (.program, .within (.string false)) := by
        simp only [State.read, Mode.read]
        rfl
      rw [Delimiter.char, hread]
      rfl

/-- The first character of a literal is not its delimiter. -/
theorem head?_flatMap_text {delimiter : Delimiter} {content : List (Piece delimiter)}
    (h : content ≠ []) (rest : List Char) :
    (content.flatMap Piece.text ++ rest).head? ≠ some delimiter.char := by
  obtain ⟨piece, content, rfl⟩ := List.exists_cons_of_ne_nil h
  cases piece with
  | shown c hc => simpa [Piece.text] using hc.1
  | escaped c hc => cases delimiter <;> simp [Piece.text, Delimiter.char]

theorem layers_literal {delimiter : Delimiter} {content : List (Piece delimiter)}
    {rest : List Char}
    (hrest : delimiter = .quote → content = [] → rest.head? ≠ some '"') :
    layers (delimiter.char :: (content.flatMap Piece.text ++ delimiter.char :: rest)) =
      (delimiter.char, .program) :: ((content.flatMap Piece.text).map (·, .literal) ++
        (delimiter.char, .program) :: layers rest) := by
  rw [layers_delimiter, layersOnto_content]
  rintro rfl ⟨further, hquotes⟩
  by_cases hcontent : content = []
  · subst hcontent
    refine hrest rfl rfl ?_
    rw [← (List.cons.inj hquotes).2]
    rfl
  · exact head?_flatMap_text hcontent _ (by rw [← hquotes]; rfl)

theorem layersOnto_lineComment {text : List Char} (h : '\n' ∉ text)
    (beforeLast last : Option Char) (rest : List Char) :
    layersOnto [] (.within .lineComment) beforeLast last (text ++ '\n' :: rest) =
      (text ++ ['\n']).map (·, .comment) ++ layers rest := by
  induction text generalizing beforeLast last with
  | nil =>
      rw [List.nil_append, layersOnto_cons, layersOnto_of_last _ _ (by decide) (by decide)]
      rfl
  | cons c text ih =>
      obtain ⟨hc, htext⟩ := not_or.mp (mt List.mem_cons.mpr h)
      have hread : (State.within .lineComment).read beforeLast last c (text ++ '\n' :: rest) =
          (.comment, .within .lineComment) := by
        simp only [State.read, Mode.read, if_neg (Ne.symm hc)]
      rw [List.cons_append, layersOnto_cons, hread, ih htext]
      rfl

theorem layersOnto_blockComment {text : List Char} (h : ¬ ['*', '/'] <:+: text)
    (beforeLast last : Option Char) (rest : List Char) :
    layersOnto [] (.within .blockComment) beforeLast last (text ++ '*' :: '/' :: rest) =
      (text ++ ['*', '/']).map (·, .comment) ++ layers rest := by
  induction text generalizing beforeLast last with
  | nil =>
      rw [List.nil_append, layersOnto_cons, layersOnto_cons,
        layersOnto_of_last _ _ (by decide) (by decide)]
      rfl
  | cons c text ih =>
      have htext : ¬ ['*', '/'] <:+: text := fun hmark =>
        h (hmark.trans (List.suffix_cons c text).isInfix)
      -- A star in front of the closing mark is not followed by a slash.
      have hmark : c = '*' → ∀ further, text ++ '*' :: '/' :: rest ≠ '/' :: further := by
        rintro rfl further hslash
        cases text with
        | nil => exact absurd (List.cons.inj hslash).1 (by decide)
        | cons d text =>
            obtain ⟨rfl, -⟩ := List.cons.inj hslash
            exact h ⟨[], text, rfl⟩
      have hread : (State.within .blockComment).read beforeLast last c
          (text ++ '*' :: '/' :: rest) = (.comment, .within .blockComment) := by
        simp only [State.read, Mode.read]
        split
        next hslash => exact absurd hslash (hmark rfl _)
        next => rfl
      rw [List.cons_append, layersOnto_cons, hread, ih htext]
      rfl

theorem layers_lineComment {text : List Char} (h : '\n' ∉ text) (rest : List Char) :
    layers ('/' :: '/' :: (text ++ '\n' :: rest)) =
      ('/' :: '/' :: (text ++ ['\n'])).map (·, .comment) ++ layers rest := by
  rw [layers, layersOnto_cons, layersOnto_cons]
  exact congrArg (('/', .comment) :: ('/', .comment) :: ·) (layersOnto_lineComment h _ _ rest)

theorem layers_blockComment {text : List Char} (h : ¬ ['*', '/'] <:+: text) (rest : List Char) :
    layers ('/' :: '*' :: (text ++ '*' :: '/' :: rest)) =
      ('/' :: '*' :: (text ++ ['*', '/'])).map (·, .comment) ++ layers rest := by
  rw [layers, layersOnto_cons, layersOnto_cons]
  exact congrArg (('/', .comment) :: ('*', .comment) :: ·) (layersOnto_blockComment h _ _ rest)

/-- After a segment, the reading stands in program text. -/
theorem layers_segment {segment : Segment} {rest : List Char}
    (hrest : segment.text = ['"', '"'] → rest.head? ≠ some '"') :
    layers (segment.text ++ rest) = segment.layers ++ layers rest := by
  cases segment with
  | program text h => exact layers_program h rest
  | literal delimiter content =>
      have hempty : delimiter = .quote → content = [] → rest.head? ≠ some '"' := by
        rintro rfl rfl
        exact hrest rfl
      simpa [Segment.text, Segment.layers] using layers_literal hempty
  | lineComment text h => simpa [Segment.text, Segment.layers] using layers_lineComment h rest
  | blockComment text h => simpa [Segment.text, Segment.layers] using layers_blockComment h rest

/-! ## Reading all segments -/

theorem layers_segments {segments : List Segment} (h : Separate segments) :
    layers (segments.flatMap Segment.text) = segments.flatMap Segment.layers := by
  induction segments with
  | nil => rfl
  | cons segment segments ih =>
      rw [List.flatMap_cons, List.flatMap_cons, layers_segment h.1, ih h.2]

/-- Masking leaves program text as it is, and of literals and comments exactly what they are. -/
theorem Masked.ofSource_segments {segments : List Segment} (h : Separate segments) :
    Masked.ofSource (segments.flatMap Segment.text) =
      ⟨segments.flatMap Segment.inCode, segments.flatMap Segment.inSkeleton⟩ := by
  rw [Masked.ofSource, layers_segments h, List.flatMap_assoc, List.flatMap_assoc]
  simp only [Segment.flatMap_inCode_layers, Segment.flatMap_inSkeleton_layers]

/-- Comment marks in a string, a quote in each comment, escaped delimiters, and a comment that seems
to close where it opens. -/
def interleaved : List Segment :=
  [.program "x = $".toList (by decide),
    .literal .quote [.shown '/' (by decide), .shown '*' (by decide), .escaped '"' (by decide),
      .shown 'é' (by decide)],
    .blockComment "/ \"ü\n*".toList (by decide),
    .literal .apostrophe [.escaped '\'' (by decide)],
    .literal .quote [],
    .lineComment " isn't".toList (by decide),
    .program "* y".toList (by decide)]

theorem Masked.ofSource_segments_interleaved :
    Separate interleaved ∧
      interleaved.flatMap Segment.text =
        "x = $\"/*\\\"é\"/*/ \"ü\n**/'\\''\"\"// isn't\n* y".toList ∧
      Masked.ofSource (interleaved.flatMap Segment.text) =
        ⟨"x = $\"/*\\\"é\"       \n   '\\''\"\"        \n* y".toList,
          "x = $\"      \"       \n   '  '\"\"        \n* y".toList⟩ :=
  ⟨by decide, by decide, (Masked.ofSource_segments (by decide)).trans (by decide)⟩

end ClassDiagram.Source
