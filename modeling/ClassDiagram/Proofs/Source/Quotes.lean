import ClassDiagram.Proofs.Source.Program
import ClassDiagram.Proofs.Source.Segments

/-!
# Quotes in literals

A verbatim string has every quote twice, and a text block any quotes but three in a row. The reading
looks for the three quotes of a text block before it asks what stands in front of them, and it knows
no escapes in the block. So a verbatim string that starts with a quote is taken for a text block,
and a text block ends at an escaped quote if two more quotes follow it. All others are read as one
literal.
-/

namespace ClassDiagram.Source

open Text

/-- Program text in front of a source is shown. -/
theorem Masked.skeleton_program_append {text : List Char}
    (h : ∀ c ∈ text, c ∉ ['"', '\'', '/', '@']) (rest : List Char) :
    (ofSource (text ++ rest)).skeleton = text ++ (ofSource rest).skeleton := by
  simp only [ofSource, layers_program h, List.flatMap_append, List.flatMap_map, inSkeleton,
    List.flatMap_singleton']

/-- A text in front of a semicolon that the skeleton shows leaves nothing open. -/
theorem isClosed_of_semicolon {text : List Char}
    (h : ∃ shown, (Masked.ofSource (text ++ [';'])).skeleton = shown ++ [';']) :
    IsClosed text := by
  obtain ⟨shown, hshown⟩ := h
  have hsize := (byteLength_ofSource (text ++ [';'])).2
  rw [hshown, byteLength_append, byteLength_append] at hsize
  exact isClosed_of_skeleton (by decide) (by decide) hshown (Nat.add_right_cancel hsize)

/-! ## Verbatim strings -/

/-- The content of a verbatim string as it is written: every quote twice. -/
def doubled : List Char → List Char
  | [] => []
  | c :: content => if c = '"' then '"' :: '"' :: doubled content else c :: doubled content

/-- A verbatim string with a content. -/
def verbatim (content : List Char) : List Char := '@' :: '"' :: (doubled content ++ ['"'])

/-- A verbatim string is read to the first quote that stands alone. -/
theorem layersOnto_doubled (content : List Char) (beforeLast last : Option Char)
    {rest : List Char} (hrest : rest.head? ≠ some '"') :
    layersOnto [] (.within (.string true)) beforeLast last (doubled content ++ '"' :: rest) =
      (doubled content).map (·, .literal) ++ ('"', .program) :: layers rest := by
  induction content generalizing beforeLast last with
  | nil =>
      have hread : (State.within (.string true)).read beforeLast last '"' rest =
          (.program, .within .program) := by
        cases rest with
        | nil => rfl
        | cons d rest =>
            have hd : d ≠ '"' := by simpa using hrest
            simp only [State.read, Mode.read]
            grind
      rw [doubled, List.nil_append, layersOnto_cons, hread,
        layersOnto_of_last _ _ (by decide) (by decide)]
      rfl
  | cons c content ih =>
      rw [doubled]
      split
      next hquote =>
        rw [List.cons_append, List.cons_append, layersOnto_cons, layersOnto_cons]
        exact congrArg (('"', .literal) :: ('"', .literal) :: ·) (ih _ _)
      next hquote =>
        have hread : (State.within (.string true)).read beforeLast last c
            (doubled content ++ '"' :: rest) = (.literal, .within (.string true)) := by
          simp only [State.read, Mode.read]
          grind
        rw [List.cons_append, layersOnto_cons, hread, ih]
        rfl

theorem not_prefix_doubled {content : List Char} (hcontent : content.head? ≠ some '"')
    {rest : List Char} (hrest : rest.head? ≠ some '"') :
    ¬ ['"', '"'] <+: doubled content ++ '"' :: rest := by
  rintro ⟨further, hquotes⟩
  cases content with
  | nil =>
      obtain ⟨_, rfl⟩ := List.cons.inj hquotes
      exact hrest rfl
  | cons c content =>
      have hc : c ≠ '"' := by simpa using hcontent
      rw [doubled, if_neg hc] at hquotes
      exact hc (List.cons.inj hquotes).1.symm

/-- A verbatim string that does not start with a quote is one literal. -/
theorem layers_verbatim {content : List Char} (hcontent : content.head? ≠ some '"')
    {rest : List Char} (hrest : rest.head? ≠ some '"') :
    layers (verbatim content ++ rest) =
      ('@', .program) :: ('"', .program) ::
        ((doubled content).map (·, .literal) ++ ('"', .program) :: layers rest) := by
  have hopened := not_prefix_doubled hcontent hrest
  have hread : (State.within .program).read none (some '@') '"' (doubled content ++ '"' :: rest) =
      (.program, .within (.string true)) := by
    have hblock : ∀ further, doubled content ++ '"' :: rest ≠ '"' :: '"' :: further :=
      fun further heq => hopened (heq ▸ ⟨further, rfl⟩)
    simp only [State.read, Mode.read]
    rfl
  have htext : verbatim content ++ rest = '@' :: '"' :: (doubled content ++ '"' :: rest) := by
    simp [verbatim]
  rw [htext, layers, layersOnto_cons, read_of_isPlain (by decide), layersOnto_cons, hread,
    layersOnto_doubled content _ _ hrest]

/-! ## Text blocks -/

/-- What stands on both sides of a text block. -/
def blockQuotes : List Char := ['"', '"', '"']

/-- Whether a text can be the content of a text block, of which `quotes` quotes in a row stand in
front of it: a backslash escapes the character after it, three quotes in a row would close the
block, and so would any quotes at the end. -/
def isBlockContent : (quotes : Nat) → List Char → Bool
  | quotes, [] => quotes = 0
  | _, ['\\'] => false
  | _, '\\' :: _ :: content => isBlockContent 0 content
  | quotes, '"' :: content => quotes < 2 && isBlockContent (quotes + 1) content
  | _, _ :: content => isBlockContent 0 content

/-- Three quotes in program text open a text block. -/
theorem layersOnto_open (beforeLast last : Option Char) (rest : List Char) :
    layersOnto [] (.within .program) beforeLast last (blockQuotes ++ rest) =
      blockQuotes.map (·, .program) ++
        layersOnto [] (.within .textBlock) (some '"') (some '"') rest := by
  simp only [blockQuotes, List.cons_append, List.nil_append, layersOnto_cons]
  rfl

/-- Three quotes in a text block close it. -/
theorem layersOnto_close (beforeLast last : Option Char) (rest : List Char) :
    layersOnto [] (.within .textBlock) beforeLast last (blockQuotes ++ rest) =
      blockQuotes.map (·, .program) ++ layers rest := by
  have hrest : layersOnto [] (.within .program) (some '"') (some '"') rest = layers rest :=
    layersOnto_of_last _ _ (by decide) (by decide) rest
  rw [← hrest]
  simp only [blockQuotes, List.cons_append, List.nil_append, layersOnto_cons]
  rfl

/-- Where two quotes stand, the quotes that close the block count. -/
theorem prefix_append_blockQuotes {content : List Char} (rest : List Char) :
    ['"', '"'] <+: content ++ (blockQuotes ++ rest) ↔ ['"', '"'] <+: content ++ ['"', '"'] := by
  match content with
  | [] => simp [blockQuotes]
  | [c] => simp [blockQuotes, List.cons_prefix_cons]
  | c :: d :: content => simp [List.cons_prefix_cons]

/-- A text block is masked as one literal exactly if no three quotes close it earlier. -/
theorem skeleton_content_iff (content : List Char) (beforeLast last : Option Char)
    (rest : List Char) :
    (layersOnto [] (.within .textBlock) beforeLast last
        (content ++ (blockQuotes ++ rest))).flatMap inSkeleton =
      content.flatMap blank ++ (blockQuotes ++ (Masked.ofSource rest).skeleton) ↔
    ¬ blockQuotes <:+: content ++ ['"', '"'] := by
  induction content generalizing beforeLast last with
  | nil =>
      rw [List.nil_append, layersOnto_close, List.flatMap_append]
      exact iff_of_true rfl (by decide)
  | cons c content ih =>
      rw [List.cons_append, List.cons_append, List.infix_cons_iff, blockQuotes,
        List.cons_prefix_cons, ← blockQuotes, ← prefix_append_blockQuotes rest, not_or]
      by_cases hcloses : '"' = c ∧ ['"', '"'] <+: content ++ (blockQuotes ++ rest)
      · obtain ⟨rfl, further, hfurther⟩ := hcloses
        -- The first of the quotes is shown, where a quote in a literal is blank.
        refine iff_of_false (fun hsame => ?_) (fun hnot => hnot.1 ⟨rfl, further, hfurther⟩)
        rw [← hfurther, layersOnto_cons] at hsame
        exact absurd (List.cons.inj hsame).1 (by decide)
      · have hread : (State.within .textBlock).read beforeLast last c
            (content ++ (blockQuotes ++ rest)) = (.literal, .within .textBlock) := by
          simp only [State.read, Mode.read]
          split
          next further hfurther =>
            exact absurd ⟨rfl, further, hfurther.symm⟩ hcloses
          next => rfl
        rw [layersOnto_cons, hread, and_iff_right hcloses, ← ih (last) (some c)]
        rw [List.flatMap_cons, List.flatMap_cons, List.append_assoc]
        exact List.append_cancel_left_eq _ _ _ |>.to_iff

/-- Two quotes in front of another character do not close a block. -/
theorem infix_of_infix_run {quotes : Nat} (hquotes : quotes ≤ 2) {c : Char} (hc : c ≠ '"')
    {rest : List Char} (h : blockQuotes <:+: List.replicate quotes '"' ++ c :: rest) :
    blockQuotes <:+: rest := by
  have hne : '"' ≠ c := hc.symm
  obtain rfl | rfl | rfl : quotes = 0 ∨ quotes = 1 ∨ quotes = 2 := by omega
  all_goals
    simpa [blockQuotes, List.replicate, List.infix_cons_iff, List.cons_prefix_cons, hne] using h

/-- In the content of a text block, three quotes stand in a row only if the first of them is
escaped. -/
theorem infix_escaped_of_isBlockContent {quotes : Nat} {content : List Char}
    (hcontent : isBlockContent quotes content = true) (hquotes : quotes ≤ 2)
    (h : blockQuotes <:+: List.replicate quotes '"' ++ (content ++ ['"', '"'])) :
    '\\' :: blockQuotes <:+: content ++ ['"', '"'] := by
  fun_induction isBlockContent quotes content with
  | case1 quotes =>
      obtain rfl := of_decide_eq_true hcontent
      exact absurd h (by decide)
  | case2 => exact absurd hcontent (by decide)
  | case3 quotes c content ih =>
      have hbehind := infix_of_infix_run hquotes (by decide) h
      rcases List.infix_cons_iff.mp hbehind with hprefix | hinfix
      · exact (List.cons_prefix_cons.mpr ⟨rfl, hprefix⟩).isInfix
      · exact ((ih hcontent (by decide) hinfix).trans (List.infix_cons (List.infix_refl _))).trans
          (List.infix_cons (List.infix_refl _))
  | case4 quotes content ih =>
      obtain ⟨hfurther, hcontent⟩ := Bool.and_eq_true_iff.mp hcontent
      have hrun : List.replicate quotes '"' ++ ('"' :: content ++ ['"', '"']) =
          List.replicate (quotes + 1) '"' ++ (content ++ ['"', '"']) := by
        rw [List.replicate_succ']
        simp
      rw [hrun] at h
      exact (ih hcontent (of_decide_eq_true hfurther) h).trans
        (List.infix_cons (List.infix_refl _))
  | case5 quotes c content _ _ hc ih =>
      exact (ih hcontent (by decide) (infix_of_infix_run hquotes hc h)).trans
        (List.infix_cons (List.infix_refl _))

/-! ## The literals in a source -/

/-- A verbatim string is masked as one literal, and the reading is back in program text behind it,
exactly if its content does not start with a quote. -/
theorem Masked.skeleton_verbatim_iff {front rest : List Char}
    (hfront : ∀ c ∈ front, c ∉ ['"', '\'', '/', '@']) (hrest : '"' ∉ rest)
    (content : List Char) :
    (ofSource (front ++ (verbatim content ++ rest))).skeleton =
          front ++ ('@' :: '"' :: ((doubled content).flatMap blank ++
            '"' :: (ofSource rest).skeleton)) ∧
        IsClosed (front ++ verbatim content) ↔
      content.head? ≠ some '"' := by
  constructor
  · rintro ⟨hskeleton, _⟩ hquote
    obtain ⟨content, rfl⟩ := List.head?_eq_some_iff.mp hquote
    have htext : verbatim ('"' :: content) ++ rest =
        '@' :: (blockQuotes ++ (doubled content ++ '"' :: rest)) := by
      simp [verbatim, doubled, blockQuotes]
    rw [skeleton_program_append hfront, htext, ofSource, layers, layersOnto_cons,
      read_of_isPlain (by decide), layersOnto_open] at hskeleton
    -- The third character shows a quote, where the content of a literal is blank.
    have hthird : some '"' = some ' ' :=
      congrArg (·[2]?) (List.append_cancel_left hskeleton)
    exact absurd hthird (by decide)
  · intro hcontent
    have hmasked : ∀ rest : List Char, rest.head? ≠ some '"' →
        (ofSource (front ++ (verbatim content ++ rest))).skeleton =
          front ++ ('@' :: '"' :: ((doubled content).flatMap blank ++
            '"' :: (ofSource rest).skeleton)) := by
      intro rest hrest
      rw [skeleton_program_append hfront, ofSource, layers_verbatim hcontent hrest]
      simp [ofSource, inSkeleton, List.flatMap_map]
    refine ⟨hmasked rest fun hquote => hrest (List.mem_of_head? hquote), ?_⟩
    apply isClosed_of_semicolon
    rw [List.append_assoc, hmasked [';'] (by decide)]
    exact ⟨front ++ ('@' :: '"' :: ((doubled content).flatMap blank ++ ['"'])), by
      simp [show (ofSource [';']).skeleton = [';'] by decide]⟩

/-- A path with a line break and quotes at its end. -/
def oddPath : List Char := "C:\\é\n\"\"".toList

theorem Masked.skeleton_verbatim_iff_path :
    (∀ c ∈ "p = $".toList, c ∉ ['"', '\'', '/', '@']) ∧ '"' ∉ "; y".toList ∧
      verbatim oddPath = "@\"C:\\é\n\"\"\"\"\"".toList ∧
      (ofSource ("p = $".toList ++ (verbatim oddPath ++ "; y".toList))).skeleton =
        "p = $@\"     \n    \"; y".toList ∧
      IsClosed ("p = $".toList ++ verbatim oddPath) := by
  have hfront : ∀ c ∈ "p = $".toList, c ∉ ['"', '\'', '/', '@'] := by decide +kernel
  have hrest : '"' ∉ "; y".toList := by decide +kernel
  obtain ⟨hskeleton, hclosed⟩ := (skeleton_verbatim_iff hfront hrest oddPath).mpr (by decide +kernel)
  exact ⟨hfront, hrest, by decide +kernel, hskeleton.trans (by decide +kernel), hclosed⟩

/-- The program text around a literal in a class with two fields. -/
def beforeLiteral : List Char := "class A \x7b private String s = ".toList

def afterLiteral : List Char := "; private int y; \x7d".toList

/-- The three quotes of a verbatim string that starts with a quote open a text block, and nothing
closes it. -/
theorem Masked.skeleton_verbatim_leadingQuote :
    (∀ c ∈ beforeLiteral, c ∉ ['"', '\'', '/', '@']) ∧ '"' ∉ afterLiteral ∧
      verbatim "\"x".toList = "@\"\"\"x\"".toList ∧
      (ofSource (beforeLiteral ++ (verbatim "\"x".toList ++ afterLiteral))).skeleton =
        beforeLiteral ++ ("@\"\"\"".toList ++ List.replicate 20 ' ') ∧
      (ofSource (beforeLiteral ++ (verbatim "\"x".toList ++ afterLiteral))).skeleton ≠
        beforeLiteral ++ ('@' :: '"' :: ((doubled "\"x".toList).flatMap blank ++
          '"' :: (ofSource afterLiteral).skeleton)) := by
  refine ⟨?_, ?_, ?_, ?_, ?_⟩ <;> decide +kernel

/-- A text block is masked as one literal exactly if no escaped quote in it has two more quotes
behind it, those that close the block included. -/
theorem Masked.skeleton_textBlock_iff {front content : List Char}
    (hfront : ∀ c ∈ front, c ∉ ['"', '\'', '/', '@']) (hcontent : isBlockContent 0 content = true)
    (rest : List Char) :
    (ofSource (front ++ (blockQuotes ++ (content ++ (blockQuotes ++ rest))))).skeleton =
        front ++ (blockQuotes ++ (content.flatMap blank ++
          (blockQuotes ++ (ofSource rest).skeleton))) ↔
      ¬ '\\' :: blockQuotes <:+: content ++ ['"', '"'] := by
  have hinfix : blockQuotes <:+: content ++ ['"', '"'] ↔
      '\\' :: blockQuotes <:+: content ++ ['"', '"'] :=
    ⟨infix_escaped_of_isBlockContent hcontent (Nat.zero_le 2),
      (List.infix_cons (List.infix_refl _)).trans⟩
  have hopened : (ofSource (blockQuotes ++ (content ++ (blockQuotes ++ rest)))).skeleton =
      blockQuotes ++ (layersOnto [] (.within .textBlock) (some '"') (some '"')
        (content ++ (blockQuotes ++ rest))).flatMap inSkeleton := by
    rw [ofSource, layers, layersOnto_open, List.flatMap_append, List.flatMap_append]
    rfl
  rw [skeleton_program_append hfront, hopened, ← hinfix, ← skeleton_content_iff,
    List.append_cancel_left_eq, List.append_cancel_left_eq]

/-- The content of a text block with escapes, quotes and a line break. -/
def oddBlock : List Char := "a \"\"\\\"é\n\\\" \\\\".toList

theorem Masked.skeleton_textBlock_iff_escapes :
    (∀ c ∈ "s = ".toList, c ∉ ['"', '\'', '/', '@']) ∧ isBlockContent 0 oddBlock = true ∧
      (ofSource ("s = ".toList ++ (blockQuotes ++
        (oddBlock ++ (blockQuotes ++ "; y".toList))))).skeleton =
        "s = \"\"\"        \n     \"\"\"; y".toList := by
  have hfront : ∀ c ∈ "s = ".toList, c ∉ ['"', '\'', '/', '@'] := by decide +kernel
  have hcontent : isBlockContent 0 oddBlock = true := by decide +kernel
  have hskeleton := (skeleton_textBlock_iff hfront hcontent "; y".toList).mpr (by decide +kernel)
  exact ⟨hfront, hcontent, hskeleton.trans (by decide +kernel)⟩

/-- The content of a text block that ends with an escaped quote. -/
def quotedGreeting : List Char := "\nsay \\\"hi\\\"".toList

/-- The escaped quote is taken for the first of those that close the block, and the last of them
opens a string. -/
theorem Masked.skeleton_textBlock_escapedQuote :
    (∀ c ∈ beforeLiteral, c ∉ ['"', '\'', '/', '@']) ∧ isBlockContent 0 quotedGreeting = true ∧
      '"' ∉ afterLiteral ∧
      (ofSource (beforeLiteral ++
        (blockQuotes ++ (quotedGreeting ++ (blockQuotes ++ afterLiteral))))).skeleton =
        beforeLiteral ++ (blockQuotes ++ ('\n' :: List.replicate 9 ' ' ++ (blockQuotes ++
          ('"' :: List.replicate 18 ' ')))) ∧
      (ofSource (beforeLiteral ++
        (blockQuotes ++ (quotedGreeting ++ (blockQuotes ++ afterLiteral))))).skeleton ≠
        beforeLiteral ++ (blockQuotes ++ (quotedGreeting.flatMap blank ++
          (blockQuotes ++ (ofSource afterLiteral).skeleton))) := by
  refine ⟨?_, ?_, ?_, ?_, ?_⟩ <;> decide +kernel

end ClassDiagram.Source
