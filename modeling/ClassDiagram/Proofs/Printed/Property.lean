import ClassDiagram.Proofs.Printed.Declared

/-!
# Properties as they are written

A property with any accessors: each may have access words of its own, and instead of a semicolon
an expression or a block. No stretch of a property mentions an access keyword, and no block starts
with the keyword of an accessor.
-/

namespace ClassDiagram.Printed

open Text Source

variable {language : Language}

/-- A stretch in which nothing is declared. -/
structure QuietStretch (language : Language) extends Stretch where
  quiet : mentions language.accessKeywords none toStretch.skeleton = false

/-- The block of an accessor. It is not taken for the accessor list of a property. -/
structure Block (language : Language) extends QuietStretch language where
  first : startsWithWord ["get", "set", "init"] (toStretch.skeleton.dropWhile isBlank) = false

/-- What follows the keyword of an accessor, up to its end. -/
inductive AccessorBody (language : Language)
  | semicolon
  | expression (s : QuietStretch language)
  | block (b : Block language)

/-- An accessor and the white space in front of it. -/
structure AccessorText (language : Language) where
  before : Blanks
  access : List (Access language)
  keyword : String
  mem : keyword ∈ ["get", "set", "init"]
  gap : Blanks
  body : AccessorBody language

/-- A property and the white space in front of it. -/
structure PropertyText (language : Language) where
  leading : Blanks
  declarator : Declarator language
  before : Blanks
  first : AccessorText language
  others : List (AccessorText language)
  after : Blanks
  initializer : Option (Blanks × QuietStretch language)

/-! ## The text of a property -/

def AccessorBody.shown (view : Stretch → List Char) : AccessorBody language → List Char
  | .semicolon => [';']
  | .expression s => '=' :: '>' :: (view s.toStretch ++ [';'])
  | .block b => '{' :: (view b.toStretch ++ ['}'])

/-- What follows the keyword of an accessor. -/
def AccessorText.ending (view : Stretch → List Char) (a : AccessorText language) : List Char :=
  a.gap.text ++ a.body.shown view

def AccessorText.bare (view : Stretch → List Char) (a : AccessorText language) : List Char :=
  accessTexts a.access ++ (a.keyword.toList ++ a.ending view)

def AccessorText.shown (view : Stretch → List Char) (a : AccessorText language) : List Char :=
  a.before.text ++ a.bare view

def PropertyText.accessors (m : PropertyText language) : List (AccessorText language) :=
  m.first :: m.others

/-- The initializer of a property, if there is one. -/
def PropertyText.appendix (view : Stretch → List Char) (m : PropertyText language) : List Char :=
  appended view (m.initializer.map fun (gap, s) => (gap, s.toStretch))

/-- What follows the declarator of a property. -/
def PropertyText.ending (view : Stretch → List Char) (m : PropertyText language) : List Char :=
  m.before.text ++
    '{' :: (m.accessors.flatMap (·.shown view) ++ (m.after.text ++ '}' :: m.appendix view))

def PropertyText.shown (view : Stretch → List Char) (m : PropertyText language) : List Char :=
  m.leading.text ++ (m.declarator.text ++ m.ending view)

/-! ## The copies of a property -/

theorem masks_accessTexts (access : List (Access language)) {rest code skeleton : List Char}
    (h : Masks rest ⟨code, skeleton⟩) :
    Masks (accessTexts access ++ rest)
      ⟨accessTexts access ++ code, accessTexts access ++ skeleton⟩ := by
  induction access with
  | nil => exact h
  | cons a access ih =>
      simp only [accessTexts, List.flatMap_cons, List.append_assoc] at ih ⊢
      exact masks_word (isIdentifier_accessKeywords language a.word a.mem).isWord
        (masks_blanks a.gap.blank ih)

theorem AccessorBody.masks (body : AccessorBody language) {rest code skeleton : List Char}
    (h : Masks rest ⟨code, skeleton⟩) :
    Masks (body.shown Stretch.text ++ rest)
      ⟨body.shown Stretch.code ++ code, body.shown Stretch.skeleton ++ skeleton⟩ := by
  cases body with
  | semicolon => exact masks_cons (by decide) h
  | expression s =>
      simp only [shown, List.cons_append, List.append_assoc, List.nil_append]
      exact masks_cons (by decide) (masks_cons (by decide) (s.toStretch.masks (by decide) h))
  | block b =>
      simp only [shown, List.cons_append, List.append_assoc, List.nil_append]
      exact masks_cons (by decide) (b.toStretch.masks (by decide) h)

theorem AccessorText.masks (a : AccessorText language) {rest code skeleton : List Char}
    (h : Masks rest ⟨code, skeleton⟩) :
    Masks (a.shown Stretch.text ++ rest)
      ⟨a.shown Stretch.code ++ code, a.shown Stretch.skeleton ++ skeleton⟩ := by
  simp only [shown, bare, ending, List.append_assoc]
  refine masks_blanks a.before.blank (masks_accessTexts a.access ?_)
  exact masks_word (isIdentifier_accessor a.keyword a.mem).isWord
    (masks_blanks a.gap.blank (a.body.masks h))

/-- The copies of a list are put together from those of its elements. -/
theorem masks_flatMap {α : Type} (shown : (Stretch → List Char) → α → List Char) {xs : List α}
    (hshown : ∀ x ∈ xs, ∀ {rest code skeleton : List Char}, Masks rest ⟨code, skeleton⟩ →
      Masks (shown Stretch.text x ++ rest)
        ⟨shown Stretch.code x ++ code, shown Stretch.skeleton x ++ skeleton⟩)
    {rest code skeleton : List Char} (h : Masks rest ⟨code, skeleton⟩) :
    Masks (xs.flatMap (shown Stretch.text) ++ rest)
      ⟨xs.flatMap (shown Stretch.code) ++ code,
        xs.flatMap (shown Stretch.skeleton) ++ skeleton⟩ := by
  induction xs with
  | nil => exact h
  | cons x xs ih =>
      simp only [List.flatMap_cons, List.append_assoc]
      exact hshown x List.mem_cons_self (ih fun y hy => hshown y (List.mem_cons_of_mem _ hy))

/-- The code and the skeleton of a property are those of its stretches, with the rest as it is. -/
theorem PropertyText.masks (m : PropertyText language) {rest code skeleton : List Char}
    (h : Masks rest ⟨code, skeleton⟩) :
    Masks (m.shown Stretch.text ++ rest)
      ⟨m.shown Stretch.code ++ code, m.shown Stretch.skeleton ++ skeleton⟩ := by
  simp only [shown, ending, List.append_assoc, List.cons_append]
  refine masks_blanks m.leading.blank (m.declarator.masks (masks_blanks m.before.blank
    (masks_cons (by decide) (masks_flatMap AccessorText.shown (fun a _ => a.masks) ?_))))
  exact masks_blanks m.after.blank (masks_cons (by decide) ((masks_appended _).append h))

/-! ## The braces of a property -/

theorem isBalanced_accessTexts (access : List (Access language)) :
    IsBalanced '{' '}' (accessTexts access) := by
  refine isBalanced_of_isSimple (isSimple_flatMap.mpr fun a _ => isSimple_append.mpr ⟨?_, ?_⟩)
  · exact isSimple_of_isWord (isIdentifier_accessKeywords language a.word a.mem).isWord
  · exact isSimple_of_isBlank a.gap.blank

theorem AccessorBody.isBalanced (body : AccessorBody language) :
    IsBalanced '{' '}' (body.shown Stretch.skeleton) := by
  cases body with
  | semicolon => exact (by decide : IsBalanced '{' '}' [';'])
  | expression s =>
      exact ((s.balanced.append (by decide)).cons (by decide) (by decide)).cons (by decide)
        (by decide)
  | block b => exact b.balanced.enclose (by decide)

theorem AccessorText.isBalanced (a : AccessorText language) :
    IsBalanced '{' '}' (a.shown Stretch.skeleton) := by
  refine (isBalanced_of_isSimple (isSimple_of_isBlank a.before.blank)).append
    ((isBalanced_accessTexts a.access).append (IsBalanced.append ?_ (IsBalanced.append ?_ ?_)))
  · exact isBalanced_of_isSimple
      (isSimple_of_isWord (isIdentifier_accessor a.keyword a.mem).isWord)
  · exact isBalanced_of_isSimple (isSimple_of_isBlank a.gap.blank)
  · exact a.body.isBalanced

theorem isBalanced_flatMap {α : Type} {f : α → List Char} {xs : List α}
    (h : ∀ x ∈ xs, IsBalanced '{' '}' (f x)) : IsBalanced '{' '}' (xs.flatMap f) := by
  induction xs with
  | nil => rfl
  | cons x xs ih =>
      rw [List.flatMap_cons]
      exact (h x List.mem_cons_self).append (ih fun y hy => h y (List.mem_cons_of_mem _ hy))

theorem PropertyText.isBalanced (m : PropertyText language) :
    IsBalanced '{' '}' (m.shown Stretch.skeleton) := by
  have hgap : ∀ gap : Blanks, IsBalanced '{' '}' gap.text := fun gap =>
    isBalanced_of_isSimple (isSimple_of_isBlank gap.blank)
  have hlist := ((isBalanced_flatMap fun a (_ : a ∈ m.accessors) => a.isBalanced).append
    (hgap m.after)).enclose (show '{' ≠ '}' by decide)
  have hending := (hgap m.before).append (hlist.append
    (isBalanced_appended (m.initializer.map fun (gap, s) => (gap, s.toStretch))))
  refine (hgap m.leading).append ((isBalanced_of_isSimple m.declarator.isSimple_text).append ?_)
  simpa [ending, appendix] using hending

/-! ## The lengths of the copies -/

theorem AccessorText.byteLength_code (a : AccessorText language) :
    byteLength (a.shown Stretch.code) = byteLength (a.shown Stretch.skeleton) := by
  obtain ⟨before, access, keyword, mem, gap, body⟩ := a
  cases body <;> simp [shown, bare, ending, AccessorBody.shown, Stretch.byteLength_code]

end ClassDiagram.Printed
