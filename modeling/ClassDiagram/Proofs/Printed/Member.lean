import ClassDiagram.Proofs.Printed.Declarator

/-!
# Members as they are written

A member is a declarator and an ending: the initializer of a field, the parameters and the body of
a method, or the accessors of a property. Initializers, parameters and bodies are stretches of the
source that may contain literals, comments and declarations; the rest is written plainly.
-/

namespace ClassDiagram.Printed

open Text Source

/-- A stretch of a source that leaves no literal and no comment open, with its braces in pairs. -/
structure Stretch where
  text : List Char
  closed : IsClosed text
  balanced : IsBalanced '{' '}' (Masked.ofSource text).skeleton

namespace Stretch

def code (s : Stretch) : List Char := (Masked.ofSource s.text).code

def skeleton (s : Stretch) : List Char := (Masked.ofSource s.text).skeleton

end Stretch

def Stretch.empty : Stretch := ⟨[], by decide, by decide⟩

/-- What stands between the parentheses of a method. -/
structure Parameters extends Stretch where
  paired : IsBalanced '(' ')' toStretch.skeleton

/-- What stands between the parameters and the body of a method. -/
structure Clauses extends Stretch where
  unbroken : ∀ c ∈ toStretch.skeleton, c ∉ ['{', '}', ';', '=']

def Clauses.space : Clauses := ⟨⟨[' '], by decide, by decide +kernel⟩, by decide +kernel⟩

structure Access (language : Language) where
  word : String
  mem : word ∈ language.accessKeywords
  gap : Gap

structure Accessor (language : Language) (keywords : List String) where
  before : Blanks
  access : Option (Access language)
  keyword : String
  mem : keyword ∈ keywords
  after : Blanks

def accessText {language : Language} : Option (Access language) → List Char
  | none => []
  | some a => a.word.toList ++ a.gap.text

/-- Access words, each followed by white space. -/
def accessTexts {language : Language} (access : List (Access language)) : List Char :=
  access.flatMap fun a => a.word.toList ++ a.gap.text

theorem accessTexts_toList {language : Language} (access : Option (Access language)) :
    accessTexts access.toList = accessText access := by
  cases access with
  | none => rfl
  | some a => exact List.append_nil _

def Accessor.text {language : Language} {keywords : List String}
    (accessor : Accessor language keywords) : List Char :=
  accessor.before.text ++ (accessText accessor.access ++
    (accessor.keyword.toList ++ (accessor.after.text ++ [';'])))

/-- The accessors of a property, each without a body. -/
structure Accessors (language : Language) where
  before : Blanks
  getter : Accessor language ["get"]
  setter : Accessor language ["set", "init"]
  after : Blanks

/-- The ending of a member. Only in C# does a property have one of its own. -/
inductive Ending (language : Language)
  | field (gap : Blanks) (initializer : Option Stretch)
  | method (gap : Blanks) (parameters : Parameters) (clauses : Clauses) (body : Option Stretch)
  | property (hcsharp : language = .csharp) (accessors : Accessors language)
    (initializer : Option (Blanks × Stretch))

/-- A member and the white space in front of it. -/
structure Member (language : Language) where
  leading : Blanks
  declarator : Declarator language
  ending : Ending language

/-! ## The text of a member

A member is shown with its stretches as the source has them, or as the code or the skeleton has
them; so one definition gives all copies of it. -/

def initialized (view : Stretch → List Char) : Option Stretch → List Char
  | none => [';']
  | some s => '=' :: (view s ++ [';'])

/-- The initializer of a property, if there is one. -/
def appended (view : Stretch → List Char) : Option (Blanks × Stretch) → List Char
  | none => []
  | some (gap, s) => gap.text ++ '=' :: (view s ++ [';'])

/-- A body, or a semicolon for want of one. -/
def bodied (view : Stretch → List Char) : Option Stretch → List Char
  | none => [';']
  | some s => '{' :: (view s ++ ['}'])

def Accessors.text {language : Language} (accessors : Accessors language) : List Char :=
  accessors.before.text ++
    '{' :: (accessors.getter.text ++ (accessors.setter.text ++ (accessors.after.text ++ ['}'])))

variable {language : Language}

def Ending.shown (view : Stretch → List Char) : Ending language → List Char
  | .field gap initializer => gap.text ++ initialized view initializer
  | .method gap parameters clauses body =>
    gap.text ++ '(' :: (view parameters.toStretch ++
      ')' :: (view clauses.toStretch ++ bodied view body))
  | .property _ accessors initializer => accessors.text ++ appended view initializer

def Member.shown (view : Stretch → List Char) (m : Member language) : List Char :=
  m.leading.text ++ (m.declarator.text ++ m.ending.shown view)

def Ending.stretches : Ending language → List Stretch
  | .field _ initializer => initializer.toList
  | .method _ parameters clauses body =>
    parameters.toStretch :: clauses.toStretch :: body.toList
  | .property _ _ initializer => (initializer.map (·.2)).toList

/-- The character that tells what kind of member a declarator belongs to. -/
def Ending.mark : Ending language → Char
  | .field _ none => ';'
  | .field _ (some _) => '='
  | .method .. => '('
  | .property .. => '{'

theorem Ending.breaksWith (e : Ending language) (view : Stretch → List Char) (rest : List Char) :
    BreaksWith e.mark (e.shown view ++ rest) := by
  cases e with
  | field gap initializer =>
      cases initializer with
      | none => exact ⟨rfl, gap.text, rest, gap.blank, List.append_assoc ..⟩
      | some s => exact ⟨rfl, gap.text, _, gap.blank, List.append_assoc ..⟩
  | method gap parameters clauses body =>
      exact ⟨rfl, gap.text, _, gap.blank, List.append_assoc ..⟩
  | property hcsharp accessors initializer =>
      rw [Ending.shown, Accessors.text, List.append_assoc, List.append_assoc]
      exact ⟨rfl, accessors.before.text, _, accessors.before.blank, rfl⟩

/-! ## The copies of a member -/

theorem masks_blanks {cs rest code skeleton : List Char} (hcs : ∀ c ∈ cs, isBlank c = true)
    (h : Masks rest ⟨code, skeleton⟩) : Masks (cs ++ rest) ⟨cs ++ code, cs ++ skeleton⟩ := by
  refine (masks_plain (fun c hc => isPlain_of_isBlank (hcs c hc)) fun c hc => ?_).append h
  have hblank := hcs c (List.mem_of_getLast? hc)
  constructor <;> rintro rfl <;> exact absurd hblank (by decide)

theorem masks_word {w rest code skeleton : List Char} (hw : ∀ c ∈ w, isWord c = true)
    (h : Masks rest ⟨code, skeleton⟩) : Masks (w ++ rest) ⟨w ++ code, w ++ skeleton⟩ := by
  refine (masks_plain (fun c hc => isPlain_of_isWord (hw c hc)) fun c hc => ?_).append h
  have hword := hw c (List.mem_of_getLast? hc)
  constructor <;> rintro rfl <;> exact absurd hword (by decide +kernel)

theorem masks_cons {d : Char} (hd : isDelimiter d = true) {rest code skeleton : List Char}
    (h : Masks rest ⟨code, skeleton⟩) : Masks (d :: rest) ⟨d :: code, d :: skeleton⟩ := by
  simp only [isDelimiter, Bool.and_eq_true, decide_eq_true_eq] at hd
  have hplain : Masks [d] (.plain [d]) := by
    apply masks_plain (List.forall_mem_singleton.mpr hd.1.1.1)
    intro c hc
    obtain rfl := Option.some.inj hc
    exact ⟨hd.1.2, hd.2⟩
  exact hplain.append h

theorem masks_nil : Masks [] ⟨[], []⟩ := masks_plain (by simp) (by simp)

theorem Stretch.masks (s : Stretch) {d : Char} (hd : isDelimiter d = true)
    {rest code skeleton : List Char} (h : Masks rest ⟨code, skeleton⟩) :
    Masks (s.text ++ d :: rest) ⟨s.code ++ d :: code, s.skeleton ++ d :: skeleton⟩ := by
  have hparts : Masks ((s.text ++ [d]) ++ rest)
      ⟨(s.code ++ [d]) ++ code, (s.skeleton ++ [d]) ++ skeleton⟩ :=
    (masks_closed s.closed hd).append h
  simpa only [List.append_assoc, List.cons_append, List.nil_append] using hparts

theorem masks_initialized (initializer : Option Stretch) :
    Masks (initialized Stretch.text initializer)
      ⟨initialized Stretch.code initializer, initialized Stretch.skeleton initializer⟩ := by
  have hend : Masks [';'] ⟨[';'], [';']⟩ := masks_cons (by decide) masks_nil
  cases initializer with
  | none => exact hend
  | some s => exact masks_cons (by decide) (s.masks (by decide) masks_nil)

theorem masks_appended (initializer : Option (Blanks × Stretch)) :
    Masks (appended Stretch.text initializer)
      ⟨appended Stretch.code initializer, appended Stretch.skeleton initializer⟩ := by
  rcases initializer with _ | ⟨gap, s⟩
  · exact masks_nil
  · exact masks_blanks gap.blank (masks_initialized (some s))

theorem Clauses.masks (clauses : Clauses) (body : Option Stretch) :
    Masks (clauses.text ++ bodied Stretch.text body)
      ⟨clauses.code ++ bodied Stretch.code body,
        clauses.skeleton ++ bodied Stretch.skeleton body⟩ := by
  cases body with
  | none => exact clauses.toStretch.masks (by decide) masks_nil
  | some s => exact clauses.toStretch.masks (by decide) (s.masks (by decide) masks_nil)

theorem Accessor.masks {keywords : List String} (hkeywords : ∀ w ∈ keywords, IsIdentifier w.toList)
    (accessor : Accessor language keywords) {rest code skeleton : List Char}
    (h : Masks rest ⟨code, skeleton⟩) :
    Masks (accessor.text ++ rest) ⟨accessor.text ++ code, accessor.text ++ skeleton⟩ := by
  have hkeyword := masks_word (hkeywords accessor.keyword accessor.mem).isWord
    (masks_blanks accessor.after.blank (masks_cons (d := ';') (by decide) h))
  simp only [Accessor.text, List.append_assoc]
  apply masks_blanks accessor.before.blank
  cases accessor.access with
  | none => exact hkeyword
  | some a =>
      rw [accessText, List.append_assoc, List.append_assoc, List.append_assoc]
      exact masks_word (isIdentifier_accessKeywords language a.word a.mem).isWord
        (masks_blanks a.gap.blank hkeyword)

theorem Accessors.masks (accessors : Accessors language) {rest code skeleton : List Char}
    (h : Masks rest ⟨code, skeleton⟩) :
    Masks (accessors.text ++ rest) ⟨accessors.text ++ code, accessors.text ++ skeleton⟩ := by
  simp only [Accessors.text, List.append_assoc, List.cons_append]
  refine masks_blanks accessors.before.blank (masks_cons (by decide) ?_)
  refine accessors.getter.masks (by decide) (accessors.setter.masks (by decide) ?_)
  exact masks_blanks accessors.after.blank (masks_cons (by decide) h)

theorem Ending.masks (e : Ending language) :
    Masks (e.shown Stretch.text) ⟨e.shown Stretch.code, e.shown Stretch.skeleton⟩ := by
  cases e with
  | field gap initializer => exact masks_blanks gap.blank (masks_initialized initializer)
  | method gap parameters clauses body =>
      refine masks_blanks gap.blank (masks_cons (by decide) ?_)
      exact parameters.toStretch.masks (by decide) (clauses.masks body)
  | property hcsharp accessors initializer => exact accessors.masks (masks_appended initializer)

theorem Declarator.masks (d : Declarator language) {rest code skeleton : List Char}
    (h : Masks rest ⟨code, skeleton⟩) :
    Masks (d.text ++ rest) ⟨d.text ++ code, d.text ++ skeleton⟩ := by
  refine (masks_plain (fun c hc => (d.isSimple_text c hc).2) fun c hc => ?_).append h
  -- The last character is the last one of the name.
  have hlast : c ∈ d.name.text := by
    rw [Declarator.text, Declarator.afterAccess, ← List.append_assoc, ← List.append_assoc,
      ← List.append_assoc, List.getLast?_append_of_ne_nil _ d.name.isIdentifier.ne_nil] at hc
    exact List.mem_of_getLast? hc
  have hword := d.name.isIdentifier.isWord c hlast
  constructor <;> rintro rfl <;> exact absurd hword (by decide +kernel)

/-- The code and the skeleton of a member are those of its stretches, with the rest as it is. -/
theorem Member.masks (m : Member language) {rest code skeleton : List Char}
    (h : Masks rest ⟨code, skeleton⟩) :
    Masks (m.shown Stretch.text ++ rest)
      ⟨m.shown Stretch.code ++ code, m.shown Stretch.skeleton ++ skeleton⟩ := by
  simp only [Member.shown, List.append_assoc]
  exact masks_blanks m.leading.blank (m.declarator.masks (m.ending.masks.append h))

/-! ## The braces of a member -/

theorem isBalanced_of_isSimple {cs : List Char} (h : IsSimple cs) : IsBalanced '{' '}' cs := by
  apply isBalanced_of_forall_ne
  intro c hc
  have hbreaks := (h c hc).1
  constructor <;> rintro rfl <;> exact absurd hbreaks (by decide)

theorem isBalanced_initialized (initializer : Option Stretch) :
    IsBalanced '{' '}' (initialized Stretch.skeleton initializer) := by
  have hend : IsBalanced '{' '}' [';'] := by decide
  cases initializer with
  | none => exact hend
  | some s => exact (s.balanced.append hend).cons (by decide) (by decide)

theorem isBalanced_appended (initializer : Option (Blanks × Stretch)) :
    IsBalanced '{' '}' (appended Stretch.skeleton initializer) := by
  rcases initializer with _ | ⟨gap, s⟩
  · rfl
  · exact (isBalanced_of_isSimple (isSimple_of_isBlank gap.blank)).append
      (isBalanced_initialized (some s))

theorem isBalanced_bodied (body : Option Stretch) :
    IsBalanced '{' '}' (bodied Stretch.skeleton body) := by
  cases body with
  | none => decide
  | some s => exact s.balanced.enclose (by decide)

theorem Accessor.isBalanced {keywords : List String}
    (hkeywords : ∀ w ∈ keywords, IsIdentifier w.toList) (accessor : Accessor language keywords) :
    IsBalanced '{' '}' accessor.text := by
  have haccess : IsSimple (accessText accessor.access) := by
    cases accessor.access with
    | none => exact fun c hc => absurd hc List.not_mem_nil
    | some a =>
        exact isSimple_append.mpr
          ⟨isSimple_of_isWord (isIdentifier_accessKeywords language a.word a.mem).isWord,
            isSimple_of_isBlank a.gap.blank⟩
  have hkeyword := isSimple_of_isWord (hkeywords accessor.keyword accessor.mem).isWord
  refine (isBalanced_of_isSimple (isSimple_of_isBlank accessor.before.blank)).append ?_
  refine (isBalanced_of_isSimple haccess).append ((isBalanced_of_isSimple hkeyword).append ?_)
  exact (isBalanced_of_isSimple (isSimple_of_isBlank accessor.after.blank)).append (by decide)

theorem Accessors.isBalanced (accessors : Accessors language) :
    IsBalanced '{' '}' accessors.text := by
  have hgap : ∀ gap : Blanks, IsBalanced '{' '}' gap.text := fun gap =>
    isBalanced_of_isSimple (isSimple_of_isBlank gap.blank)
  have hinner := ((accessors.getter.isBalanced (by decide)).append
    (accessors.setter.isBalanced (by decide))).append (hgap accessors.after)
  have hlist := (hgap accessors.before).append (hinner.enclose (by decide))
  simpa only [Accessors.text, List.append_assoc] using hlist

theorem Ending.isBalanced (e : Ending language) :
    IsBalanced '{' '}' (e.shown Stretch.skeleton) := by
  have hgap : ∀ gap : Blanks, IsBalanced '{' '}' gap.text := fun gap =>
    isBalanced_of_isSimple (isSimple_of_isBlank gap.blank)
  cases e with
  | field gap initializer => exact (hgap gap).append (isBalanced_initialized initializer)
  | method gap parameters clauses body =>
      refine (hgap gap).append (IsBalanced.cons ?_ (by decide) (by decide))
      refine parameters.balanced.append (IsBalanced.cons ?_ (by decide) (by decide))
      exact clauses.balanced.append (isBalanced_bodied body)
  | property hcsharp accessors initializer =>
      exact accessors.isBalanced.append (isBalanced_appended initializer)

theorem Member.isBalanced (m : Member language) :
    IsBalanced '{' '}' (m.shown Stretch.skeleton) :=
  (isBalanced_of_isSimple (isSimple_of_isBlank m.leading.blank)).append
    ((isBalanced_of_isSimple m.declarator.isSimple_text).append m.ending.isBalanced)

end ClassDiagram.Printed
