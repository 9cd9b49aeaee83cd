import ClassDiagram.Proofs.Declaration.Opening
import ClassDiagram.Proofs.Printed.Occurrence

/-!
# Classes as they are written

A class is written with any words in front of its keyword, a header of base clauses without
literals and comments, and a list of members between braces. Whatever follows the class belongs to
the source as well. The declaration that is found first in such a source is the class itself. It is
found in the same way if another header is put in place of the one of the class, and such a header
may have parentheses.
-/

namespace ClassDiagram.Printed

open Text Source

variable {language : Language}

/-- What stands between the name of a class and its body. -/
structure Header where
  text : List Char
  allowed : ∀ c ∈ text, isPlain c = true ∧ c ∉ [';', '(', ')', '{', '}']
  apart : endsWord text = true

def Header.space : Header := ⟨[' '], by decide, by decide⟩

/-- A header in which parentheses may stand, each with its partner. -/
structure Heading where
  text : List Char
  allowed : ∀ c ∈ text, isPlain c = true ∧ c ∉ [';', '{', '}']
  paired : IsBalanced '(' ')' text
  apart : endsWord text = true

def Header.heading (header : Header) : Heading where
  text := header.text
  allowed := fun c hc => by
    obtain ⟨hplain, hmarks⟩ := header.allowed c hc
    simp only [List.mem_cons, List.not_mem_nil, or_false, not_or] at hmarks ⊢
    exact ⟨hplain, hmarks.1, hmarks.2.2.2⟩
  paired := isBalanced_of_forall_ne fun c hc => by
    obtain ⟨_, hmarks⟩ := header.allowed c hc
    simp only [List.mem_cons, List.not_mem_nil, or_false, not_or] at hmarks
    exact ⟨hmarks.2.1, hmarks.2.2.1⟩
  apart := header.apart

/-- The name of a class ends where the header starts. -/
theorem Heading.head (heading : Heading) (rest : List Char) :
    ∀ c ∈ (heading.text ++ '{' :: rest).head?, isWord c = false := by
  obtain ⟨text, _, _, hapart⟩ := heading
  cases text with
  | nil => exact forall_mem_head_cons (by decide +kernel) rest
  | cons d text =>
      exact forall_mem_head_cons (endsWord_iff.mp hapart d rfl) (text ++ '{' :: rest)

theorem class_mem (language : Language) : "class" ∈ language.declarationKeywords := by
  cases language <;> decide

theorem private_mem (language : Language) : "private" ∈ language.accessKeywords := by
  cases language <;> decide

theorem public_mem (language : Language) : "public" ∈ language.accessKeywords := by
  cases language <;> decide

structure ClassModifier (language : Language) where
  word : Identifier
  gap : Gap
  free : ∀ w ∈ language.declarationKeywords, word.text ≠ w.toList

/-- A source that starts with a class. -/
structure Class (language : Language) where
  leading : Blanks
  modifiers : List (ClassModifier language)
  keyword : String
  mem : keyword ∈ language.declarationKeywords
  gap : Gap
  name : Identifier
  header : Header
  members : List (Member language)
  closing : Blanks
  after : List Char

namespace Class

variable (c : Class language)

def prelude : List Char :=
  c.leading.text ++ c.modifiers.flatMap fun m => m.word.text ++ m.gap.text

def opening : List Char := c.keyword.toList ++ (c.gap.text ++ c.name.text)

/-- Everything in front of the body. -/
def front : List Char := c.prelude ++ (c.opening ++ c.header.text)

/-- What stands between the braces. -/
def body (view : Stretch → List Char) : List Char :=
  c.members.flatMap (·.shown view) ++ c.closing.text

def text : List Char := c.front ++ '{' :: (c.body Stretch.text ++ '}' :: c.after)

/-! The class with a heading in place of its header. -/

def frontWith (heading : Heading) : List Char := c.prelude ++ (c.opening ++ heading.text)

def textWith (heading : Heading) : List Char :=
  c.frontWith heading ++ '{' :: (c.body Stretch.text ++ '}' :: c.after)

/-- The declaration that a source starts with. -/
def declaration : Declaration where
  keyword := c.keyword
  name := String.ofList c.name.text
  header := ⟨byteLength c.prelude + byteLength c.opening, byteLength c.front⟩
  body := ⟨byteLength c.front + 1, byteLength c.front + 1 + byteLength (c.body Stretch.skeleton)⟩

def declarationWith (heading : Heading) : Declaration where
  keyword := c.keyword
  name := String.ofList c.name.text
  header := ⟨byteLength c.prelude + byteLength c.opening, byteLength (c.frontWith heading)⟩
  body := ⟨byteLength (c.frontWith heading) + 1,
    byteLength (c.frontWith heading) + 1 + byteLength (c.body Stretch.skeleton)⟩

/-- The declaration that a source starts with if it has another body between the braces. -/
def declarationAround (heading : Heading) (body : List Char) : Declaration where
  keyword := c.keyword
  name := String.ofList c.name.text
  header := ⟨byteLength c.prelude + byteLength c.opening, byteLength (c.frontWith heading)⟩
  body := ⟨byteLength (c.frontWith heading) + 1,
    byteLength (c.frontWith heading) + 1 + byteLength body⟩

/-! ## The copies of a class -/

theorem masks_modifiers (modifiers : List (ClassModifier language))
    {rest code skeleton : List Char} (h : Masks rest ⟨code, skeleton⟩) :
    Masks (modifiers.flatMap (fun m => m.word.text ++ m.gap.text) ++ rest)
      ⟨modifiers.flatMap (fun m => m.word.text ++ m.gap.text) ++ code,
        modifiers.flatMap (fun m => m.word.text ++ m.gap.text) ++ skeleton⟩ := by
  induction modifiers with
  | nil => exact h
  | cons m modifiers ih =>
      simp only [List.flatMap_cons, List.append_assoc]
      exact masks_word m.word.isIdentifier.isWord (masks_blanks m.gap.blank ih)

theorem masks_body {rest code skeleton : List Char} (h : Masks rest ⟨code, skeleton⟩) :
    Masks (c.body Stretch.text ++ rest)
      ⟨c.body Stretch.code ++ code, c.body Stretch.skeleton ++ skeleton⟩ := by
  simp only [body]
  induction c.members with
  | nil => exact masks_blanks c.closing.blank h
  | cons m members ih =>
      simp only [List.flatMap_cons, List.append_assoc] at ih ⊢
      exact m.masks ih

theorem masks_heading (heading : Heading) {rest code skeleton : List Char}
    (h : Masks rest ⟨code, skeleton⟩) :
    Masks (heading.text ++ '{' :: rest)
      ⟨heading.text ++ '{' :: code, heading.text ++ '{' :: skeleton⟩ := by
  have hplain : Masks (heading.text ++ ['{']) (.plain (heading.text ++ ['{'])) := by
    refine masks_plain (fun d hd => ?_) fun d hd => ?_
    · rcases List.mem_append.mp hd with hd | hd
      · exact (heading.allowed d hd).1
      · rw [List.mem_singleton.mp hd]
        decide
    · obtain rfl : '{' = d := by simpa using hd
      decide
  have hparts : Masks ((heading.text ++ ['{']) ++ rest)
      ⟨(heading.text ++ ['{']) ++ code, (heading.text ++ ['{']) ++ skeleton⟩ := hplain.append h
  simpa only [List.append_assoc, List.cons_append, List.nil_append] using hparts

/-- Everything in front of the body stands unchanged in both copies, whatever the body is. -/
theorem ofSource_around (heading : Heading) {body bodyCode bodySkeleton : List Char}
    (hbody : ∀ {rest code skeleton : List Char}, Masks rest ⟨code, skeleton⟩ →
      Masks (body ++ rest) ⟨bodyCode ++ code, bodySkeleton ++ skeleton⟩) (after : List Char) :
    Masked.ofSource (c.frontWith heading ++ '{' :: (body ++ '}' :: after)) =
      ⟨c.frontWith heading ++ '{' :: (bodyCode ++ '}' :: (Masked.ofSource after).code),
        c.frontWith heading ++
          '{' :: (bodySkeleton ++ '}' :: (Masked.ofSource after).skeleton)⟩ := by
  have hclosed := masks_heading heading (hbody (masks_cons (d := '}') (by decide) masks_nil))
  have hfront := masks_blanks c.leading.blank (masks_modifiers c.modifiers
    (masks_word (isIdentifier_declarationKeywords language c.keyword c.mem).isWord
      (masks_blanks c.gap.blank (masks_word c.name.isIdentifier.isWord hclosed))))
  have hcopies := hfront.ofSource_append after
  have htext : c.frontWith heading ++ '{' :: (body ++ '}' :: after) = c.leading.text ++
      (c.modifiers.flatMap (fun m => m.word.text ++ m.gap.text)
      ++ (c.keyword.toList ++ (c.gap.text ++ (c.name.text ++ (heading.text ++
        '{' :: (body ++ ['}'])))))) ++ after := by
    simp [frontWith, prelude, opening]
  rw [htext, hcopies, Masked.mk_append]
  simp [frontWith, prelude, opening]

/-- Everything in front of the body and the white space in it stands unchanged in both copies. -/
theorem ofSource_textWith (heading : Heading) : Masked.ofSource (c.textWith heading) =
    ⟨c.frontWith heading ++
        '{' :: (c.body Stretch.code ++ '}' :: (Masked.ofSource c.after).code),
      c.frontWith heading ++
        '{' :: (c.body Stretch.skeleton ++ '}' :: (Masked.ofSource c.after).skeleton)⟩ :=
  c.ofSource_around heading c.masks_body c.after

theorem ofSource_text : Masked.ofSource c.text =
    ⟨c.front ++ '{' :: (c.body Stretch.code ++ '}' :: (Masked.ofSource c.after).code),
      c.front ++ '{' :: (c.body Stretch.skeleton ++ '}' :: (Masked.ofSource c.after).skeleton)⟩ :=
  c.ofSource_textWith c.header.heading

theorem slice_heading (heading : Heading) : slice (Masked.ofSource (c.textWith heading)).skeleton
    (c.declarationWith heading).header = heading.text := by
  have hsource : ∀ rest, c.frontWith heading ++ rest =
      (c.prelude ++ c.opening) ++ (heading.text ++ rest) := by
    intro rest
    simp [frontWith]
  rw [ofSource_textWith]
  dsimp only
  rw [hsource]
  apply slice_append_of_eq (byteLength_append ..).symm
  simp only [frontWith, byteLength_append, Nat.add_assoc]

theorem slice_around (heading : Heading) (body rest : List Char) :
    slice (c.frontWith heading ++ '{' :: (body ++ '}' :: rest))
      (c.declarationAround heading body).body = body := by
  have hsource : c.frontWith heading ++ '{' :: (body ++ '}' :: rest) =
      (c.frontWith heading ++ ['{']) ++ (body ++ '}' :: rest) := by simp
  have hstart : byteLength (c.frontWith heading) + 1 =
      byteLength (c.frontWith heading ++ ['{']) := by
    rw [byteLength_append]
    rfl
  rw [hsource]
  exact slice_append_of_eq hstart (by rw [← hstart])

theorem slice_header :
    slice (Masked.ofSource c.text).skeleton c.declaration.header = c.header.text :=
  c.slice_heading c.header.heading

/-! ## The declaration that is found -/

theorem isQuiet_modifiers (modifiers : List (ClassModifier language)) (before : Option Char)
    (rest : List Char) :
    IsQuiet (Declaration.opening? language) before
      (modifiers.flatMap fun m => m.word.text ++ m.gap.text) rest := by
  have hopens := Declaration.opensWith_opening? language
  have hwords := isIdentifier_declarationKeywords language
  induction modifiers generalizing before with
  | nil => exact isQuiet_nil
  | cons m modifiers ih =>
      have hmentions := mentions_of_isWord m.word.isIdentifier.isWord m.free before
      rw [List.flatMap_cons, List.append_assoc]
      refine IsQuiet.append (isQuiet_of_not_mentions hopens hwords hmentions ?_)
        (isQuiet_blanks_append hopens hwords m.gap.blank (ih _))
      rw [List.append_assoc]
      exact forall_mem_head_gap isWord_of_isBlank m.gap.ne_nil m.gap.blank _

theorem startsWord_modifiers (modifiers : List (ClassModifier language)) {before : Option Char}
    (hbefore : startsWord before = true) :
    startsWord (lastOf before (modifiers.flatMap fun m => m.word.text ++ m.gap.text)) = true := by
  induction modifiers generalizing before with
  | nil => exact hbefore
  | cons m modifiers ih =>
      rw [List.flatMap_cons, lastOf_append, lastOf_append]
      exact ih (startsWord_lastOf_gap m.gap.ne_nil m.gap.blank _)

theorem startsWord_prelude : startsWord (lastOf none c.prelude) = true := by
  rw [prelude, lastOf_append]
  exact startsWord_modifiers _ (startsWord_lastOf_blanks rfl c.leading.blank)

/-- A header whose parentheses stand in pairs ends at the brace of the body. -/
theorem headerEnd_append {header : List Char} (hmarks : ∀ c ∈ header, c ∉ [';', '{', '}'])
    {depth : Nat} (h : openAfter '(' ')' depth header = some 0) (offset : Nat)
    (rest : List Char) :
    Declaration.headerEnd depth offset (header ++ '{' :: rest) =
      (offset + byteLength header, some ('{' :: rest)) := by
  induction header generalizing depth offset with
  | nil =>
      obtain rfl : depth = 0 := Option.some.inj h
      rfl
  | cons c header ih =>
      have hrest := fun d hd => hmarks d (List.mem_cons_of_mem c hd)
      have hc := hmarks c List.mem_cons_self
      simp only [List.mem_cons, List.not_mem_nil, or_false, not_or] at hc
      obtain ⟨hsemicolon, hbrace, _⟩ := hc
      rw [openAfter] at h
      rw [List.cons_append, Declaration.headerEnd, byteLength_cons, ← Nat.add_assoc]
      split at h
      next hopen => rw [if_pos hopen, ih hrest h]
      next hopen =>
        rw [if_neg hopen]
        split at h
        next hclose =>
          split at h
          next => exact absurd h (by simp)
          next => rw [if_pos hclose, ih hrest h]
        next hclose =>
          rw [if_neg hclose, if_neg (by simp [hbrace]), if_neg (by simp [hsemicolon]), ih hrest h]

theorem isBalanced_body : IsBalanced '{' '}' (c.body Stretch.skeleton) := by
  refine IsBalanced.append ?_ (isBalanced_of_isSimple (isSimple_of_isBlank c.closing.blank))
  induction c.members with
  | nil => rfl
  | cons m members ih => exact m.isBalanced.append ih

/-- The declaration found in a source is the class it starts with, whatever the body is. -/
theorem find?_around (heading : Heading) {body : List Char} (hbody : IsBalanced '{' '}' body)
    (rest : List Char) :
    Declaration.find? language (c.frontWith heading ++ '{' :: (body ++ '}' :: rest)) =
      some (c.declarationAround heading body) := by
  -- Nothing is found in front of the keyword, so the first occurrence is the opening of the class.
  have hquiet : ∀ further, IsQuiet (Declaration.opening? language) none c.prelude further :=
    fun further => isQuiet_blanks_append (Declaration.opensWith_opening? language)
      (isIdentifier_declarationKeywords language) c.leading.blank
      (isQuiet_modifiers c.modifiers _ further)
  have hread : Declaration.opening? language (c.opening ++ (heading.text ++
      '{' :: (body ++ '}' :: rest))) =
      some ⟨c.keyword.toList, c.gap.text, c.name.text,
        heading.text ++ '{' :: (body ++ '}' :: rest)⟩ := by
    refine Declaration.opening?_eq_some_iff.mpr ⟨by simp [Declaration.Opening.text, opening], ?_,
      c.gap.ne_nil, c.gap.blank, c.name.isIdentifier, heading.head _⟩
    simpa using c.mem
  have hne : c.opening ≠ [] := by
    simp [opening, (isIdentifier_declarationKeywords language c.keyword c.mem).ne_nil]
  have hopening : (Declaration.Opening.mk c.keyword.toList c.gap.text c.name.text
      (heading.text ++ '{' :: (body ++ '}' :: rest))).text = c.opening := by
    simp [Declaration.Opening.text, opening]
  have hclose := partner?_balanced hbody (by decide) (byteLength (c.frontWith heading)) rest
  have hoccurrences := occurrencesFrom_of_quiet (·.text.length) (hquiet (c.opening ++
    (heading.text ++ '{' :: (body ++ '}' :: rest)))) 0
  rw [occurrencesFrom_phrase c.startsWord_prelude hne hread (by rw [hopening]), Nat.zero_add]
    at hoccurrences
  have hfront : byteLength c.prelude + byteLength c.opening + byteLength heading.text =
      byteLength (c.frontWith heading) := by
    rw [frontWith, byteLength_append, byteLength_append, Nat.add_assoc]
  have hsource : c.frontWith heading ++ '{' :: (body ++ '}' :: rest) =
      c.prelude ++ (c.opening ++ (heading.text ++ '{' :: (body ++ '}' :: rest))) := by
    simp [frontWith]
  have hend := headerEnd_append (fun d hd => (heading.allowed d hd).2) heading.paired
    (byteLength c.prelude + byteLength c.opening) (body ++ '}' :: rest)
  rw [hsource, Declaration.find?, occurrences, hoccurrences]
  simp only [hopening, Declaration.headerAndBody, hend, hfront, hclose, Option.getD_some,
    declarationAround, String.ofList_toList]
  rfl

/-- The declaration found in a source is the class it starts with. -/
theorem find?_eq_declarationWith (heading : Heading) (rest : List Char) :
    Declaration.find? language
        (c.frontWith heading ++ '{' :: (c.body Stretch.skeleton ++ '}' :: rest)) =
      some (c.declarationWith heading) :=
  c.find?_around heading c.isBalanced_body rest

theorem find?_textWith (heading : Heading) :
    Declaration.find? language (Masked.ofSource (c.textWith heading)).skeleton =
      some (c.declarationWith heading) := by
  rw [ofSource_textWith]
  exact c.find?_eq_declarationWith heading _

theorem find?_text :
    Declaration.find? language (Masked.ofSource c.text).skeleton = some c.declaration :=
  c.find?_textWith c.header.heading

end Class

/-- A class `A` whose only member is a method `f` with the given body. -/
def methodClass (body : Stretch) : Class .java where
  leading := .none
  modifiers := []
  keyword := "class"
  mem := class_mem .java
  gap := .space
  name := ⟨"A".toList, by decide⟩
  header := .space
  members := [
    { leading := .space
      declarator := {
        access := "public"
        access_mem := by decide
        modifiers := []
        typeGap := .space
        type := ⟨⟨[], ⟨"void".toList, by decide⟩⟩, none, [], false⟩
        type_free := by decide +kernel
        nameGap := .space
        name := ⟨"f".toList, by decide⟩
        name_free := by decide }
      ending := .method .none ⟨.empty, by decide⟩ .space (some body) }]
  closing := .space
  after := []

end ClassDiagram.Printed
